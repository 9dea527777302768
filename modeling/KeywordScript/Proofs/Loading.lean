import KeywordScript.Expr.Load
import Mathlib.Data.List.Forall2

/-! What a document may look like to be read as an expression, and which of its faults is reported
when it may not. `Json.HasObject` says where a document has objects, `Expr.IsNode` what each of them
must be like, and `Expr.faults` lists all that is wrong in the order of the reading. A document is
read if each of its objects is a node. Otherwise the first fault of the list is the error. -/

namespace KeywordScript

namespace Json

/-- Induction over documents: what holds of all items holds of the array, and what holds of the
values of all members holds of the object. -/
@[elab_as_elim]
theorem induction {motive : Json → Prop} (null : motive .null) (bool : ∀ b, motive (.bool b))
    (num : ∀ n, motive (.num n)) (str : ∀ s, motive (.str s))
    (arr : ∀ items, (∀ v ∈ items, motive v) → motive (.arr items))
    (obj : ∀ members, (∀ member ∈ members, motive member.2) → motive (.obj members)) :
    ∀ v, motive v
  | .null => null
  | .bool b => bool b
  | .num n => num n
  | .str s => str s
  | .arr items => arr items fun v _ => induction null bool num str arr obj v
  | .obj members => obj members fun member _ => induction null bool num str arr obj member.2
termination_by v => sizeOf v
decreasing_by
  · rename_i hv
    have := List.sizeOf_lt_of_mem hv
    simp only [Json.arr.sizeOf_spec]
    omega
  · rename_i hmember
    have := List.sizeOf_lt_of_mem hmember
    obtain ⟨key, v⟩ := member
    simp only [Prod.mk.sizeOf_spec] at this
    simp only [Json.obj.sizeOf_spec]
    omega

/-- A document has an object of these members, at any depth. The values of `line` fields are not
looked into. -/
inductive HasObject (members : List (String × Json)) : Json → Prop where
  | here : HasObject members (.obj members)
  | item {items : List Json} {v : Json} :
      v ∈ items → HasObject members v → HasObject members (.arr items)
  | member {others : List (String × Json)} {key : String} {v : Json} :
      (key, v) ∈ others → key ≠ Expr.lineField → HasObject members v →
        HasObject members (.obj others)

/-- The keys of each object are in order, and no two are the same. -/
def Ordered (v : Json) : Prop :=
  ∀ members, v.HasObject members → members.Pairwise fun a b => a.1 < b.1

theorem ordered_null : Json.null.Ordered := by
  intro members h
  cases h

theorem ordered_arr {items : List Json} : (Json.arr items).Ordered ↔ ∀ v ∈ items, v.Ordered := by
  constructor
  · intro h v hv members hm
    exact h members (.item hv hm)
  · intro h members hm
    cases hm with
    | item hv hm => exact h _ hv members hm

theorem ordered_obj {members : List (String × Json)} :
    (Json.obj members).Ordered ↔ members.Pairwise (fun a b => a.1 < b.1) ∧
      ∀ member ∈ members, member.1 ≠ Expr.lineField → member.2.Ordered := by
  constructor
  · intro h
    refine ⟨h members .here, ?_⟩
    intro member hmember hk others hm
    exact h others (.member hmember hk hm)
  · rintro ⟨hkeys, h⟩ others hm
    cases hm with
    | here => exact hkeys
    | member hv hk hm => exact h _ hv hk others hm

end Json

namespace Expr

/-- The keys of an object that are not reserved. -/
def keywords (members : List (String × Json)) : List String :=
  (members.map Prod.fst).filter fun key => !isReserved key

def allowedLine : Json → Bool
  | .null => true
  | .num (.natural n) => n.toNat ≤ 4294967295
  | _ => false

/-- What each object of a document has to be. -/
structure IsNode (members : List (String × Json)) : Prop where
  line : ∀ v, members.lookup lineField = some v → allowedLine v = true
  keyword : (keywords members).length = 1

def lineFaults (members : List (String × Json)) : List LoadError :=
  match members.lookup lineField with
  | none => []
  | some v => if allowedLine v then [] else [.invalidLine v]

def isNumber : Json → Bool
  | .num _ => true
  | _ => false

/-- The reserved fields that an object has. A line that is no number is not counted. -/
def reservedGiven (members : List (String × Json)) : List String :=
  (if (members.lookup lineField).any isNumber then [lineField] else []) ++
    if (members.lookup codeField).isSome then [codeField] else []

def keywordFaults (members : List (String × Json)) : List LoadError :=
  match keywords members with
  | [] => [.missingKeyword (reservedGiven members)]
  | [_] => []
  | several => [.ambiguousKeyword several]

mutual

/-- All that is wrong with a document, in the order in which it is read. Of an object, that is its
line, then the code, the number of keywords and the argument. -/
def faults : Json → List LoadError
  | .null | .bool _ | .num _ | .str _ => []
  | .arr items => itemFaults items
  | .obj members =>
    lineFaults members ++ (memberFaults (· == codeField) members ++
      (keywordFaults members ++ memberFaults (!isReserved ·) members))

def itemFaults : List Json → List LoadError
  | [] => []
  | v :: rest => faults v ++ itemFaults rest

/-- The faults inside the members with one of the chosen keys. -/
def memberFaults (chosen : String → Bool) : List (String × Json) → List LoadError
  | [] => []
  | (key, v) :: rest => (if chosen key then faults v else []) ++ memberFaults chosen rest

end

theorem mem_itemFaults {fault : LoadError} {items : List Json} :
    fault ∈ itemFaults items ↔ ∃ v ∈ items, fault ∈ faults v := by
  induction items with
  | nil => simp [itemFaults]
  | cons v rest ih => simp [itemFaults, ih]

theorem memberFaults_eq_flatMap (chosen : String → Bool) (members : List (String × Json)) :
    memberFaults chosen members =
      (members.filter fun member => chosen member.1).flatMap fun member => faults member.2 := by
  induction members with
  | nil => rfl
  | cons member rest ih =>
    rw [memberFaults, List.filter_cons, ih]
    by_cases h : chosen member.1 = true
    · simp [h]
    · simp [h]

theorem mem_memberFaults {fault : LoadError} {chosen : String → Bool}
    {members : List (String × Json)} :
    fault ∈ memberFaults chosen members ↔
      ∃ key v, (key, v) ∈ members ∧ chosen key = true ∧ fault ∈ faults v := by
  simp [memberFaults_eq_flatMap, and_assoc]

/-! ### The faults of a document are those of its objects -/

theorem ne_lineField_iff (key : String) : key ≠ lineField ↔ key == codeField ∨ !isReserved key := by
  have hne : codeField ≠ lineField := by decide
  simp only [isReserved]
  grind

theorem mem_faults_iff {fault : LoadError} {v : Json} :
    fault ∈ faults v ↔
      ∃ members, v.HasObject members ∧
        (fault ∈ lineFaults members ∨ fault ∈ keywordFaults members) := by
  constructor
  · induction v using Json.induction with
    | null | bool _ | num _ | str _ => intro h; simp [faults] at h
    | arr items ih =>
      intro h
      obtain ⟨v, hv, hf⟩ := mem_itemFaults.mp h
      obtain ⟨members, hm, hown⟩ := ih v hv hf
      exact ⟨members, .item hv hm, hown⟩
    | obj members ih =>
      -- A fault inside a member is one that a smaller document has.
      have inside : ∀ chosen : String → Bool, (∀ key, chosen key = true → key ≠ lineField) →
          fault ∈ memberFaults chosen members → ∃ others, (Json.obj members).HasObject others ∧
            (fault ∈ lineFaults others ∨ fault ∈ keywordFaults others) := by
        intro chosen hchosen hf
        obtain ⟨key, v, hv, hk, hf⟩ := mem_memberFaults.mp hf
        obtain ⟨others, hm, hown⟩ := ih (key, v) hv hf
        exact ⟨others, .member hv (hchosen key hk) hm, hown⟩
      intro h
      simp only [faults, List.mem_append] at h
      rcases h with hline | hcode | hkeyword | harg
      · exact ⟨members, .here, .inl hline⟩
      · exact inside _ (fun key hk => (ne_lineField_iff key).mpr (.inl hk)) hcode
      · exact ⟨members, .here, .inr hkeyword⟩
      · exact inside _ (fun key hk => (ne_lineField_iff key).mpr (.inr hk)) harg
  · rintro ⟨members, hm, hown⟩
    induction hm with
    | here =>
      simp only [faults, List.mem_append]
      tauto
    | item hv _ ih =>
      exact mem_itemFaults.mpr ⟨_, hv, ih⟩
    | @member others key v hv hk _ ih =>
      simp only [faults, List.mem_append, mem_memberFaults]
      rcases (ne_lineField_iff key).mp hk with hcode | harg
      · exact .inr (.inl ⟨key, v, hv, hcode, ih⟩)
      · exact .inr (.inr (.inr ⟨key, v, hv, harg, ih⟩))

theorem isNode_iff {members : List (String × Json)} :
    IsNode members ↔ lineFaults members = [] ∧ keywordFaults members = [] := by
  have hline : lineFaults members = [] ↔
      ∀ v, members.lookup lineField = some v → allowedLine v = true := by
    unfold lineFaults
    cases members.lookup lineField <;> simp
  have hkeyword : keywordFaults members = [] ↔ (keywords members).length = 1 := by
    unfold keywordFaults
    match keywords members with
    | [] => simp
    | [_] => simp
    | _ :: _ :: _ => simp
  rw [hline, hkeyword]
  exact ⟨fun h => ⟨h.line, h.keyword⟩, fun h => ⟨h.1, h.2⟩⟩

theorem faults_eq_nil_iff {v : Json} :
    faults v = [] ↔ ∀ members, v.HasObject members → IsNode members := by
  simp only [List.eq_nil_iff_forall_not_mem, mem_faults_iff, isNode_iff]
  constructor
  · intro h members hm
    exact ⟨fun fault hf => h fault ⟨members, hm, .inl hf⟩,
      fun fault hf => h fault ⟨members, hm, .inr hf⟩⟩
  · rintro h fault ⟨members, hm, hf | hf⟩
    · exact (h members hm).1 fault hf
    · exact (h members hm).2 fault hf

/-- Keywords are reported in the order of the keys. -/
theorem pairwise_of_ambiguousKeyword_mem {v : Json} (hv : v.Ordered) {keys : List String}
    (h : .ambiguousKeyword keys ∈ faults v) : keys.Pairwise (· < ·) := by
  obtain ⟨members, hm, hline | hkeyword⟩ := mem_faults_iff.mp h
  · unfold lineFaults at hline
    grind
  · have hkeys : keys = keywords members := by
      unfold keywordFaults at hkeyword
      grind
    rw [hkeys, keywords]
    apply List.Pairwise.filter
    rw [List.pairwise_map]
    exact hv members hm

/-! ### Reading stops at the first fault -/

/-- A reading succeeds if nothing is wrong, and fails with the first fault otherwise. -/
def Reports {α : Type} (r : Except LoadError α) (found : List LoadError) : Prop :=
  match r with
  | .ok _ => found = []
  | .error e => found.head? = some e

section Reports

variable {α β : Type} {r : Except LoadError α} {found more : List LoadError}

theorem Reports.ok_iff (h : Reports r found) : (∃ a, r = .ok a) ↔ found = [] := by
  cases r with
  | ok a =>
    have hnil : found = [] := h
    simp [hnil]
  | error e =>
    have hhead : found.head? = some e := h
    have hne : found ≠ [] := List.ne_nil_of_mem (List.mem_of_mem_head? hhead)
    simp [hne]

theorem Reports.error_iff (h : Reports r found) {fault : LoadError} :
    r = .error fault ↔ found.head? = some fault := by
  cases r with
  | ok a =>
    have hnil : found = [] := h
    simp [hnil]
  | error e =>
    have hhead : found.head? = some e := h
    simp [hhead]

theorem Reports.map (f : α → β) (h : Reports r found) : Reports (r.map f) found := by
  cases r with
  | ok a => exact h
  | error e => exact h

theorem Reports.bind {f : α → Except LoadError β} (h : Reports r found)
    (hf : ∀ a, r = .ok a → Reports (f a) more) : Reports (r >>= f) (found ++ more) := by
  cases r with
  | ok a =>
    have hnil : found = [] := h
    rw [hnil]
    exact hf a rfl
  | error e =>
    have hhead : found.head? = some e := h
    change (found ++ more).head? = some e
    rw [List.head?_append, hhead]
    rfl

end Reports

theorem lineOf_reports (members : List (String × Json)) :
    Reports (lineOf members) (lineFaults members) := by
  unfold lineOf lineFaults
  split
  · rename_i h
    rw [h]
    rfl
  · rename_i h
    rw [h]
    rfl
  · rename_i n h
    by_cases hn : n.toNat ≤ 4294967295
    · have hlt : n.toNat < UInt32.size := Nat.lt_succ_of_le hn
      simp [h, allowedLine, hn, hlt, Reports]
    · have hge : ¬n.toNat < UInt32.size := fun hlt => hn (Nat.le_of_lt_succ hlt)
      simp [h, allowedLine, hn, hge, Reports]
  · rename_i v hnull hnat h
    have hv : allowedLine v = false := by
      unfold allowedLine
      grind
    simp [h, hv, Reports]

/-- A line that is read is given by a number. -/
theorem isSome_of_lineOf {members : List (String × Json)} {line : Option Nat}
    (h : lineOf members = .ok line) : line.isSome = (members.lookup lineField).any isNumber := by
  unfold lineOf at h
  split at h
  · rename_i hv
    cases h
    rw [hv]
    rfl
  · rename_i hv
    cases h
    rw [hv]
    rfl
  · rename_i n hv
    split at h
    · cases h
      rw [hv]
      rfl
    · cases h
  · cases h

/-- A member and what was read of it, under the same key. The value of a `line` field is not
read. -/
def ReadAs (member : String × Json) (part : String × Except LoadError Expr) : Prop :=
  part.1 = member.1 ∧ (member.1 ≠ lineField → Reports part.2 (faults member.2))

theorem loadMembers_readAs {members : List (String × Json)}
    (h : ∀ member ∈ members, member.1 ≠ lineField →
      ∀ site, Reports (load site member.2) (faults member.2)) (site : Site) :
    List.Forall₂ ReadAs members (loadMembers site members) := by
  induction members with
  | nil => exact .nil
  | cons member rest ih =>
    apply List.Forall₂.cons
    · exact ⟨rfl, fun hk => h member List.mem_cons_self hk _⟩
    · exact ih fun other hother => h other (List.mem_cons_of_mem _ hother)

section Parts

variable {members : List (String × Json)} {parts : List (String × Except LoadError Expr)}

private theorem keys_parts (h : List.Forall₂ ReadAs members parts) :
    parts.map Prod.fst = members.map Prod.fst := by
  induction h with
  | nil => rfl
  | cons hm _ ih => rw [List.map_cons, List.map_cons, hm.1, ih]

private theorem isSome_lookup_parts (h : List.Forall₂ ReadAs members parts) (key : String) :
    (parts.lookup key).isSome = (members.lookup key).isSome := by
  induction h with
  | nil => rfl
  | @cons member part members parts hm _ ih =>
    obtain ⟨hkey, -⟩ := hm
    rw [List.lookup_cons, List.lookup_cons, hkey]
    cases key == member.1 with
    | true => rfl
    | false => exact ih

private theorem isSome_of_codeOf {site : Site} {code : Option Code}
    (h : codeOf site parts = .ok code) :
    code.isSome = (parts.lookup codeField).isSome := by
  unfold codeOf at h
  split at h
  · rename_i hv
    cases h
    simp only [hv, Option.isSome_none]
  · rename_i body hv
    cases body with
    | ok e =>
      cases h
      rw [hv]
      rfl
    | error e => cases h

/-- The code is that of the first `script` field, which is the only one. -/
theorem codeOf_reports (h : List.Forall₂ ReadAs members parts)
    (hkeys : members.Pairwise fun a b => a.1 < b.1) (site : Site) :
    Reports (codeOf site parts) (memberFaults (· == codeField) members) := by
  induction h with
  | nil => rfl
  | @cons member part members parts hm _ ih =>
    obtain ⟨hkey, hread⟩ := hm
    obtain ⟨hlt, hrest⟩ := List.pairwise_cons.mp hkeys
    by_cases hcode : member.1 = codeField
    · have hothers : memberFaults (· == codeField) members = [] := by
        rw [memberFaults_eq_flatMap, List.filter_eq_nil_iff.mpr, List.flatMap_nil]
        intro other hother
        have hmember : codeField < other.1 := hcode ▸ hlt other hother
        simpa using fun heq : other.1 = codeField => String.lt_irrefl _ (heq ▸ hmember)
      have hbody : Reports part.2 (faults member.2) := hread (hcode ▸ by decide)
      have hlook : (part :: parts).lookup codeField = some part.2 := by
        rw [List.lookup_cons, hkey, hcode, beq_self_eq_true]
      rw [memberFaults, hothers]
      simp only [hcode, beq_self_eq_true, if_true, List.append_nil, codeOf, hlook]
      exact hbody.map _
    · have hlook : (part :: parts).lookup codeField = parts.lookup codeField := by
        rw [List.lookup_cons, hkey, beq_eq_false_iff_ne.mpr (Ne.symm hcode)]
      rw [memberFaults, codeOf, hlook, beq_eq_false_iff_ne.mpr hcode]
      exact ih hrest

private theorem keywords_eq_map (members : List (String × Json)) :
    keywords members = (members.filter fun member => !isReserved member.1).map Prod.fst := by
  rw [keywords, List.filter_map]
  rfl

private theorem readAs_filter (h : List.Forall₂ ReadAs members parts) (chosen : String → Bool) :
    List.Forall₂ ReadAs (members.filter fun member => chosen member.1)
      (parts.filter fun part => chosen part.1) := by
  apply List.rel_filter _ h
  rintro member part ⟨hkey, -⟩
  simp only [hkey]

/-- An object is read in four steps, and each is for one part of the list of its faults. -/
theorem assemble_reports (h : List.Forall₂ ReadAs members parts)
    (hkeys : members.Pairwise fun a b => a.1 < b.1) (site : Site) :
    Reports (assemble site (lineOf members) parts) (faults (.obj members)) := by
  rw [assemble, faults]
  apply (lineOf_reports members).bind
  intro line hline
  apply (codeOf_reports h hkeys site).bind
  intro code hcode
  have hgiven :
    (if line.isSome then [lineField] else []) ++ (if code.isSome then [codeField] else []) =
      reservedGiven members := by
    rw [isSome_of_lineOf hline, isSome_of_codeOf hcode, isSome_lookup_parts h]
    rfl
  -- Members that are left pair up with what was read of them: both lists have none, one or several.
  have hleft := readAs_filter h fun key => !isReserved key
  have hread :
      ∀ member ∈ members.filter (fun member => !isReserved member.1), member.1 ≠ lineField := by
    intro member hmember
    exact (ne_lineField_iff member.1).mpr (.inr (List.mem_filter.mp hmember).2)
  rw [hgiven, keywordFaults, keywords_eq_map, memberFaults_eq_flatMap]
  generalize (members.filter fun member => !isReserved member.1) = left at hleft hread ⊢
  generalize hparts : List.filter _ parts = read
  rw [show (parts.filter fun part => !isReserved part.1) = read from hparts] at hleft
  have hsame := keys_parts hleft
  cases hleft with
  | nil => rfl
  | @cons member part _ _ hm htail =>
    cases htail with
    | nil =>
      have harg : Reports part.2 (faults member.2) := hm.2 (hread member List.mem_cons_self)
      simp only [List.map_cons, List.map_nil, List.nil_append, List.flatMap_cons, List.flatMap_nil]
      exact harg.bind fun _ _ => rfl
    | cons _ _ =>
      exact congrArg (fun keys => some (LoadError.ambiguousKeyword keys)) hsame.symm

end Parts

private theorem loadItems_reports {items : List Json}
    (h : ∀ v ∈ items, ∀ site, Reports (load site v) (faults v)) (site : Site) (index : Nat) :
    Reports (loadItems site index items) (itemFaults items) := by
  induction items generalizing index with
  | nil => rfl
  | cons v rest ih =>
    rw [loadItems, itemFaults]
    apply (h v List.mem_cons_self _).bind
    intro e _
    have hrest := ih (fun v hv => h v (List.mem_cons_of_mem _ hv)) (index + 1)
    exact hrest.map (e :: ·)

theorem load_reports {v : Json} (hv : v.Ordered) (site : Site) :
    Reports (load site v) (faults v) := by
  induction v using Json.induction generalizing site with
  | null | bool _ | num _ | str _ => rfl
  | arr items ih =>
    rw [load, faults]
    have hitems :=
      loadItems_reports (fun v hmem => ih v hmem (Json.ordered_arr.mp hv v hmem)) site 0
    exact hitems.map _
  | obj members ih =>
    obtain ⟨hkeys, hvalues⟩ := Json.ordered_obj.mp hv
    rw [load]
    apply assemble_reports _ hkeys
    exact loadMembers_readAs (fun member hmem hk => ih member hmem (hvalues member hmem hk)) site

/-- A document is an expression if each object in it is a node: its line is absent, `null` or an
integer of 32 bits without a sign, and exactly one of its keys is not reserved. Otherwise the error
is the first in the list of all faults, whatever else is wrong. Where an object has several
keywords, the error gives them in order. -/
theorem load_ok_iff_or_first_fault {v : Json} (hv : v.Ordered) (site : Site) :
    ((∃ e, load site v = .ok e) ↔ ∀ members, v.HasObject members → IsNode members) ∧
    (∀ fault, load site v = .error fault ↔ (faults v).head? = some fault) ∧
    ∀ keys, load site v = .error (.ambiguousKeyword keys) → keys.Pairwise (· < ·) := by
  have hreports := load_reports hv site
  refine ⟨?_, fun fault => hreports.error_iff, ?_⟩
  · rw [hreports.ok_iff, faults_eq_nil_iff]
  · intro keys hload
    have hhead := hreports.error_iff.mp hload
    exact pairwise_of_ambiguousKeyword_mem hv (List.mem_of_mem_head? hhead)

/-- The object has two keywords, one of them with an empty object as its argument, and a node in its
code has no keyword and a line that is too large. The line comes first. -/
theorem load_ok_iff_or_first_fault_in_code :
    let v : Json := .obj [("A", .obj []), ("B", .null),
      ("script", .arr [.obj [("line", .num (.natural 4294967296))]])]
    v.Ordered ∧ faults v = [.invalidLine (.num (.natural 4294967296)), .missingKeyword ["line"],
      .ambiguousKeyword ["A", "B"], .missingKeyword []] ∧
    load { document := 0 } v = .error (.invalidLine (.num (.natural 4294967296))) := by
  intro v
  have hv : v.Ordered := by
    refine Json.ordered_obj.mpr ⟨by decide, ?_⟩
    simp [Json.ordered_arr, Json.ordered_obj, Json.ordered_null, lineField]
  refine ⟨hv, rfl, ?_⟩
  exact ((load_ok_iff_or_first_fault hv _).2.1 _).mpr rfl

end Expr

end KeywordScript
