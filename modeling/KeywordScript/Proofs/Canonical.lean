import KeywordScript.Proofs.Integer
import KeywordScript.Proofs.Loading
import KeywordScript.Proofs.Member
import KeywordScript.Proofs.Reader

/-! Canonical documents: what loading keeps of a document is its canonical form, in which nodes have
no empty lines and numbers are floats. Two documents are loaded as the same expression exactly if
they agree in this form. -/

namespace KeywordScript

namespace Json

variable {members : List (String × Json)}

/-- A `line` field that says nothing. -/
def isEmptyLine : String × Json → Bool
  | (key, .null) => key == Expr.lineField
  | _ => false

mutual

/-- The document without empty lines, and with each number as a float. -/
def canonical : Json → Json
  | .null => .null
  | .bool b => .bool b
  | .num n => .num (.real n.toFloat)
  | .str s => .str s
  | .arr items => .arr (canonicalItems items)
  | .obj members => .obj (canonicalMembers members)

def canonicalItems : List Json → List Json
  | [] => []
  | v :: rest => v.canonical :: canonicalItems rest

def canonicalMembers : List (String × Json) → List (String × Json)
  | [] => []
  | (key, v) :: rest =>
    if isEmptyLine (key, v) then canonicalMembers rest
      else (key, v.canonical) :: canonicalMembers rest

end

theorem canonicalItems_eq_map (items : List Json) : canonicalItems items = items.map canonical := by
  induction items with
  | nil => rfl
  | cons v rest ih => rw [canonicalItems, ih, List.map_cons]

theorem canonicalMembers_eq_map (members : List (String × Json)) :
    canonicalMembers members =
      (members.filter fun member => !isEmptyLine member).map fun member =>
        (member.1, member.2.canonical) := by
  induction members with
  | nil => rfl
  | cons member rest ih =>
    rw [canonicalMembers, List.filter_cons, ih]
    by_cases h : isEmptyLine member = true
    · simp [h]
    · simp [h]

theorem pairwise_canonicalMembers (hkeys : members.Pairwise fun a b => a.1 < b.1) :
    (canonicalMembers members).Pairwise fun a b => a.1 < b.1 := by
  rw [canonicalMembers_eq_map, List.pairwise_map]
  exact hkeys.filter _

theorem lookup_canonicalMembers (hkeys : members.Pairwise fun a b => a.1 < b.1) (key : String) :
    (canonicalMembers members).lookup key =
      (members.lookup key).bind fun v =>
        if isEmptyLine (key, v) then none else some v.canonical := by
  induction members with
  | nil => rfl
  | cons member rest ih =>
    obtain ⟨k, v⟩ := member
    obtain ⟨hlt, hrest⟩ := List.pairwise_cons.mp hkeys
    rw [canonicalMembers, lookup_cons_eq]
    by_cases hk : key = k
    · subst hk
      -- The key is not there a second time.
      have hnone : rest.lookup key = none := lookup_eq_none_of_lt hlt
      rw [if_pos rfl, Option.bind_some]
      by_cases hempty : isEmptyLine (key, v) = true
      · rw [if_pos hempty, if_pos hempty, ih hrest, hnone, Option.bind_none]
      · rw [if_neg hempty, if_neg hempty, lookup_cons_eq, if_pos rfl]
    · rw [if_neg hk, ← ih hrest]
      split
      · rfl
      · rw [lookup_cons_eq, if_neg hk]

theorem lookup_canonicalMembers_of_ne (hkeys : members.Pairwise fun a b => a.1 < b.1) {key : String}
    (h : key ≠ Expr.lineField) :
    (canonicalMembers members).lookup key = (members.lookup key).map canonical := by
  have hline : ∀ v, isEmptyLine (key, v) = false := by
    intro v
    cases v with
    | null => exact beq_eq_false_iff_ne.mpr h
    | _ => rfl
  rw [lookup_canonicalMembers hkeys]
  cases members.lookup key with
  | none => rfl
  | some v => simp [hline v]

/-- A line that is read has been an integer of 32 bits. -/
theorem lookup_canonicalMembers_line (hkeys : members.Pairwise fun a b => a.1 < b.1)
    {line : Option Nat} (h : Expr.lineOf members = .ok line) :
    (∀ n, line = some n → n < UInt32.size) ∧
      (canonicalMembers members).lookup Expr.lineField =
        line.map fun n => .num (.real (UInt64.ofNat n).toFloat) := by
  rw [lookup_canonicalMembers hkeys]
  unfold Expr.lineOf at h
  split at h
  · rename_i hv
    cases h
    simp [hv]
  · rename_i hv
    cases h
    simp [hv, isEmptyLine]
  · rename_i n hv
    split at h
    · rename_i hn
      cases h
      simp [hv, isEmptyLine, canonical, Numeral.toFloat, hn]
    · cases h
  · cases h

end Json

/-! ### Expressions without the places of their code -/

mutual

/-- The expression with all of its code in one and the same place. -/
def Expr.unsited : Expr → Expr
  | .lit l => .lit l
  | .script es => .script (unsitedItems es)
  | .node k arg none line => .node k arg.unsited none line
  | .node k arg (some code) line =>
    .node k arg.unsited (some ⟨{ document := 0 }, code.body.unsited⟩) line

def unsitedItems : List Expr → List Expr
  | [] => []
  | e :: rest => e.unsited :: unsitedItems rest

end

theorem unsitedItems_eq_map (es : List Expr) : unsitedItems es = es.map Expr.unsited := by
  induction es with
  | nil => rfl
  | cons e rest ih => rw [unsitedItems, ih, List.map_cons]

@[simp] theorem Expr.unsited_lit (l : Literal) : (Expr.lit l).unsited = .lit l := rfl

@[simp] theorem Expr.unsited_script (es : List Expr) :
    (Expr.script es).unsited = .script (es.map Expr.unsited) := by
  rw [Expr.unsited, unsitedItems_eq_map]

@[simp] theorem Expr.unsited_node (k : String) (arg : Expr) (code : Option Code)
    (line : Option Nat) :
    (Expr.node k arg code line).unsited =
      .node k arg.unsited (code.map fun c => ⟨{ document := 0 }, c.body.unsited⟩) line := by
  cases code <;> rfl

namespace Expr

variable {members : List (String × Json)} {site : Site}

/-! ### What an object is loaded as -/

theorem loadMembers_eq_map (site : Site) (members : List (String × Json)) :
    loadMembers site members = members.map fun member =>
      (member.1,
        load (site.part (if member.1 = codeField then .code else .argument)) member.2) := by
  induction members with
  | nil => rfl
  | cons member rest ih => rw [loadMembers, ih, List.map_cons]

theorem lookup_loadMembers (site : Site) (members : List (String × Json)) (key : String) :
    (loadMembers site members).lookup key =
      (members.lookup key).map
        (load (site.part (if key = codeField then .code else .argument))) := by
  rw [loadMembers_eq_map]
  exact lookup_map_values
    (fun key v => load (site.part (if key = codeField then .code else .argument)) v) _ _

theorem ne_codeField_of_not_reserved {key : String} (h : isReserved key = false) :
    key ≠ codeField := by
  rintro rfl
  cases h

theorem ne_lineField_of_not_reserved {key : String} (h : isReserved key = false) :
    key ≠ lineField := by
  rintro rfl
  cases h

/-- What an object has to have to be loaded as a node: under the keyword what the argument is
loaded from, nothing under other keys, and the code and the line under the keys that are reserved
for them. -/
structure Describes (site : Site) (members : List (String × Json)) (k : String) (arg : Expr)
    (code : Option Code) (line : Option Nat) : Prop where
  keyword : isReserved k = false
  argument : ∃ v, members.lookup k = some v ∧ load (site.part .argument) v = .ok arg
  others : ∀ key, key ≠ k → isReserved key = false → members.lookup key = none
  code : codeOf site (loadMembers site members) = .ok code
  line : lineOf members = .ok line

variable {k : String} {arg : Expr} {code : Option Code} {line : Option Nat}

private theorem describes_of_filter {r : Except LoadError Expr}
    (h : ((loadMembers site members).filter fun part => !isReserved part.1) = [(k, r)]) :
    isReserved k = false ∧ (∃ v, members.lookup k = some v ∧ load (site.part .argument) v = r) ∧
      ∀ key, key ≠ k → isReserved key = false → members.lookup key = none := by
  have hlookup : ∀ key, isReserved key = false →
      (loadMembers site members).lookup key = if key = k then some r else none := by
    intro key hkey
    have hfilter := lookup_filter_keys (fun key => !isReserved key) (loadMembers site members) key
    rw [h, lookup_cons_eq] at hfilter
    simpa [hkey] using hfilter.symm
  have hk : isReserved k = false := by
    have hmem : (k, r) ∈ (loadMembers site members).filter fun part => !isReserved part.1 := by
      simp [h]
    simpa using (List.mem_filter.mp hmem).2
  refine ⟨hk, ?_, ?_⟩
  · have hfound := hlookup k hk
    rw [if_pos rfl, lookup_loadMembers, if_neg (ne_codeField_of_not_reserved hk),
      Option.map_eq_some_iff] at hfound
    exact hfound
  · intro key hne hkey
    have hfound := hlookup key hkey
    rw [if_neg hne, lookup_loadMembers, Option.map_eq_none_iff] at hfound
    exact hfound

theorem Describes.filter (h : Describes site members k arg code line)
    (hkeys : members.Pairwise fun a b => a.1 < b.1) :
    ((loadMembers site members).filter fun part => !isReserved part.1) = [(k, .ok arg)] := by
  obtain ⟨v, hv, hload⟩ := h.argument
  have hparts : (loadMembers site members).Pairwise fun a b => a.1 < b.1 := by
    rw [loadMembers_eq_map, List.pairwise_map]
    exact hkeys
  refine eq_of_lookup_eq (hparts.filter _) (List.pairwise_singleton _ _) fun key => ?_
  rw [lookup_filter_keys fun key => !isReserved key, lookup_cons_eq, lookup_loadMembers]
  by_cases hk : key = k
  · simp [hk, h.keyword, hv, hload, ne_codeField_of_not_reserved h.keyword]
  · by_cases hkey : isReserved key = true
    · simp [hk, hkey]
    · simp [hk, hkey, h.others key hk (by simpa using hkey)]

theorem load_obj_eq_ok_iff (hkeys : members.Pairwise fun a b => a.1 < b.1) {e : Expr} :
    load site (.obj members) = .ok e ↔
      ∃ k arg code line, e = .node k arg code line ∧ Describes site members k arg code line := by
  rw [load, assemble]
  constructor
  · intro h
    obtain ⟨line, hline, h⟩ := bind_eq_ok h
    obtain ⟨code, hcode, h⟩ := bind_eq_ok h
    dsimp only at h
    split at h
    · cases h
    · rename_i k r hfilter
      obtain ⟨arg, rfl, h⟩ := bind_eq_ok h
      cases h
      obtain ⟨hk, hargument, hothers⟩ := describes_of_filter hfilter
      exact ⟨k, arg, code, line, rfl, hk, hargument, hothers, hcode, hline⟩
    · cases h
  · rintro ⟨k, arg, code, line, rfl, h⟩
    rw [h.line, h.code]
    simp only [bind, Except.bind]
    rw [show List.filter _ _ = _ from h.filter hkeys]
    rfl

theorem codeOf_loadMembers_eq_ok_iff :
    codeOf site (loadMembers site members) = .ok code ↔
      (members.lookup codeField = none ∧ code = none) ∨
        ∃ v body, members.lookup codeField = some v ∧ load (site.part .code) v = .ok body ∧
          code = some ⟨site.part .code, body⟩ := by
  rw [codeOf, lookup_loadMembers, if_pos rfl]
  cases members.lookup codeField with
  | none => simp [eq_comm]
  | some v =>
    simp only [Option.map_some]
    cases hload : load (site.part .code) v with
    | ok body => simp [Except.map, hload, eq_comm]
    | error e => simp [Except.map, hload]

/-! ### Documents and what they are loaded as -/

/-- What is loaded from `v` is, but for the places of code, what is loaded from a document with the
same canonical form and from no other. -/
def Faithful (v : Json) : Prop :=
  ∀ {w site site' e e'}, w.Ordered → load site v = .ok e → load site' w = .ok e' →
    (e.unsited = e'.unsited ↔ v.canonical = w.canonical)

section Nodes

variable {members' : List (String × Json)} {site' : Site} {k' : String} {arg' : Expr}
  {code' : Option Code} {line' : Option Nat}

private theorem code_faithful (hv : ∀ v, members.lookup codeField = some v → Faithful v)
    (hordered : ∀ v, members'.lookup codeField = some v → v.Ordered)
    (h : codeOf site (loadMembers site members) = .ok code)
    (h' : codeOf site' (loadMembers site' members') = .ok code') :
    (code.map fun c => (⟨{ document := 0 }, c.body.unsited⟩ : Code)) =
        (code'.map fun c => (⟨{ document := 0 }, c.body.unsited⟩ : Code)) ↔
      (members.lookup codeField).map Json.canonical =
        (members'.lookup codeField).map Json.canonical := by
  rcases codeOf_loadMembers_eq_ok_iff.mp h with ⟨hnone, rfl⟩ | ⟨v, body, hsome, hload, rfl⟩ <;>
    rcases codeOf_loadMembers_eq_ok_iff.mp h' with ⟨hnone', rfl⟩ | ⟨v', body', hsome', hload', rfl⟩
  · simp [hnone, hnone']
  · simp [hnone, hsome']
  · simp [hsome, hnone']
  · have hbody := hv v hsome (hordered v' hsome') hload hload'
    simp [hsome, hsome', hbody]

private theorem line_faithful (hkeys : members.Pairwise fun a b => a.1 < b.1)
    (hkeys' : members'.Pairwise fun a b => a.1 < b.1) (h : lineOf members = .ok line)
    (h' : lineOf members' = .ok line') :
    line = line' ↔ (Json.canonicalMembers members).lookup lineField =
      (Json.canonicalMembers members').lookup lineField := by
  obtain ⟨hsize, hlookup⟩ := Json.lookup_canonicalMembers_line hkeys h
  obtain ⟨hsize', hlookup'⟩ := Json.lookup_canonicalMembers_line hkeys' h'
  rw [hlookup, hlookup']
  cases line with
  | none => cases line' <;> simp
  | some n =>
    cases line' with
    | none => simp
    | some n' =>
      have hn := hsize n rfl
      have hn' := hsize' n' rfl
      have hnat := Number.toNat_ofNat_of_lt_size hn
      have hnat' := Number.toNat_ofNat_of_lt_size hn'
      have hinj := Number.toFloat_inj_of_lt_size (hnat.symm ▸ hn) (hnat'.symm ▸ hn')
      simp only [Option.some.injEq, Option.map_some, Json.num.injEq, Numeral.real.injEq, hinj]
      constructor
      · rintro rfl
        rfl
      · intro heq
        rw [← hnat, ← hnat', heq]

private theorem node_faithful (hkeys : members.Pairwise fun a b => a.1 < b.1)
    (hkeys' : members'.Pairwise fun a b => a.1 < b.1)
    (hfaithful : ∀ key v, key ≠ lineField → members.lookup key = some v → Faithful v)
    (hordered : ∀ key v, key ≠ lineField → members'.lookup key = some v → v.Ordered)
    (h : Describes site members k arg code line)
    (h' : Describes site' members' k' arg' code' line') :
    (node k arg code line).unsited = (node k' arg' code' line').unsited ↔
      (Json.obj members).canonical = (Json.obj members').canonical := by
  have hcode : codeField ≠ lineField := by decide
  have hk := ne_lineField_of_not_reserved h.keyword
  have hk' := ne_lineField_of_not_reserved h'.keyword
  obtain ⟨v, hv, hload⟩ := h.argument
  obtain ⟨v', hv', hload'⟩ := h'.argument
  have hargument := hfaithful k v hk hv (hordered k' v' hk' hv') hload hload'
  have hcodes :=
    code_faithful (fun v => hfaithful codeField v hcode) (fun v => hordered codeField v hcode)
    h.code h'.code
  have hlines := line_faithful hkeys hkeys' h.line h'.line
  rw [unsited_node, unsited_node, Json.canonical, Json.canonical, Json.obj.injEq, node.injEq,
    hargument, hcodes, hlines,
    eq_iff_lookup_eq (Json.pairwise_canonicalMembers hkeys) (Json.pairwise_canonicalMembers hkeys')]
  constructor
  · rintro ⟨rfl, hvalues, hscripts, hnumbers⟩ key
    by_cases hline : key = lineField
    · rw [hline, hnumbers]
    rw [Json.lookup_canonicalMembers_of_ne hkeys hline,
      Json.lookup_canonicalMembers_of_ne hkeys' hline]
    by_cases hscript : key = codeField
    · rw [hscript, hscripts]
    by_cases hkey : key = k
    · rw [hkey, hv, hv', Option.map_some, Option.map_some, hvalues]
    · have hfree : isReserved key = false := by simp [isReserved, hline, hscript]
      rw [h.others key hkey hfree, h'.others key hkey hfree]
  · intro hall
    have hsame : ∀ key, key ≠ lineField →
        (members.lookup key).map Json.canonical = (members'.lookup key).map Json.canonical := by
      intro key hline
      have hkey := hall key
      rwa [Json.lookup_canonicalMembers_of_ne hkeys hline,
        Json.lookup_canonicalMembers_of_ne hkeys' hline] at hkey
    have hkeyword : k = k' := by
      by_contra hne
      have hmissing := hsame k hk
      rw [hv, h'.others k hne h.keyword] at hmissing
      cases hmissing
    subst hkeyword
    have hvalues := hsame k hk
    rw [hv, hv', Option.map_some, Option.map_some, Option.some.injEq] at hvalues
    exact ⟨rfl, hvalues, hsame codeField hcode, hall lineField⟩

end Nodes

/-- In some place, the document is loaded as the expression. -/
def Loads (v : Json) (e : Expr) : Prop :=
  ∃ site, load site v = .ok e

theorem exists_loads_of_mem {items : List Json} {es : List Expr} (h : List.Forall₂ Loads items es)
    {e : Expr} (he : e ∈ es) : ∃ v ∈ items, Loads v e := by
  induction h with
  | nil => simp at he
  | @cons v e' rest es hv _ ih =>
    rcases List.mem_cons.mp he with rfl | he
    · exact ⟨v, List.mem_cons_self, hv⟩
    · obtain ⟨w, hw, hload⟩ := ih he
      exact ⟨w, List.mem_cons_of_mem _ hw, hload⟩

private theorem forall₂_of_loadItems {items : List Json} {es : List Expr} {index : Nat}
    (h : loadItems site index items = .ok es) :
    List.Forall₂ Loads items es := by
  induction items generalizing index es with
  | nil =>
    cases h
    exact .nil
  | cons v rest ih =>
    rw [loadItems] at h
    obtain ⟨e, he, h⟩ := bind_eq_ok h
    obtain ⟨es, hes, h⟩ := bind_eq_ok h
    cases h
    exact .cons ⟨_, he⟩ (ih hes)

private theorem items_faithful {items items' : List Json} {es es' : List Expr}
    (hfaithful : ∀ v ∈ items, Faithful v) (hordered : ∀ v ∈ items', v.Ordered)
    (h : List.Forall₂ Loads items es)
    (h' : List.Forall₂ Loads items' es') :
    es.map unsited = es'.map unsited ↔ items.map Json.canonical = items'.map Json.canonical := by
  induction h generalizing items' es' with
  | nil => cases h' <;> simp
  | @cons v e rest es hv _ ih =>
    cases h' with
    | nil => simp
    | @cons v' e' rest' es' hv' htail' =>
      obtain ⟨site, hload⟩ := hv
      obtain ⟨site', hload'⟩ := hv'
      have hhead := hfaithful v List.mem_cons_self (hordered v' List.mem_cons_self) hload hload'
      have htail := ih (fun v h => hfaithful v (List.mem_cons_of_mem _ h))
        (fun v h => hordered v (List.mem_cons_of_mem _ h)) htail'
      rw [List.map_cons, List.map_cons, List.map_cons, List.map_cons, List.cons.injEq,
        List.cons.injEq, hhead, htail]

theorem load_arr_eq_ok {items : List Json} {e : Expr} (h : load site (.arr items) = .ok e) :
    ∃ es, e = .script es ∧ List.Forall₂ Loads items es := by
  rw [load] at h
  cases hitems : loadItems site 0 items with
  | error f =>
    rw [hitems] at h
    cases h
  | ok es =>
    rw [hitems] at h
    cases h
    exact ⟨es, rfl, forall₂_of_loadItems hitems⟩

/-- The form of what is loaded from each form of document. -/
inductive LoadedAs : Json → Expr → Prop where
  | null : LoadedAs .null (.lit .null)
  | bool (b : Bool) : LoadedAs (.bool b) (.lit (.bool b))
  | num (n : Numeral) : LoadedAs (.num n) (.lit (.num n.toFloat))
  | str (s : String) : LoadedAs (.str s) (.lit (.str s))
  | arr {items : List Json} {es : List Expr} :
    List.Forall₂ Loads items es → LoadedAs (.arr items) (.script es)
  | obj {members : List (String × Json)} {site : Site} {k : String} {arg : Expr}
    {code : Option Code} {line : Option Nat} : members.Pairwise (fun a b => a.1 < b.1) →
    Describes site members k arg code line → LoadedAs (.obj members) (.node k arg code line)

theorem loadedAs_of_load {v : Json} {e : Expr} (hv : v.Ordered) (h : load site v = .ok e) :
    LoadedAs v e := by
  cases v with
  | null =>
    cases h
    exact .null
  | bool b =>
    cases h
    exact .bool b
  | num n =>
    cases h
    exact .num n
  | str s =>
    cases h
    exact .str s
  | arr items =>
    obtain ⟨es, rfl, hes⟩ := load_arr_eq_ok h
    exact .arr hes
  | obj members =>
    have hkeys := (Json.ordered_obj.mp hv).1
    obtain ⟨k, arg, code, line, rfl, hdescribes⟩ := (load_obj_eq_ok_iff hkeys).mp h
    exact .obj hkeys hdescribes

theorem faithful {v : Json} (hv : v.Ordered) : Faithful v := by
  induction v using Json.induction with
  | null | bool _ | num _ | str _ =>
    intro w site site' e e' hw h h'
    cases h
    cases loadedAs_of_load hw h' <;> simp [Json.canonical]
  | arr items ih =>
    intro w site site' e e' hw h h'
    have hitems := Json.ordered_arr.mp hv
    cases loadedAs_of_load hv h with
    | arr hes =>
      rw [unsited_script, Json.canonical, Json.canonicalItems_eq_map]
      cases loadedAs_of_load hw h' with
      | arr hes' =>
        have hes :=
          items_faithful (fun v h => ih v h (hitems v h)) (Json.ordered_arr.mp hw) hes hes'
        rw [unsited_script, Json.canonical, Json.canonicalItems_eq_map, script.injEq,
          Json.arr.injEq, hes]
      | _ => simp [Json.canonical]
  | obj members ih =>
    intro w site site' e e' hw h h'
    obtain ⟨-, hvalues⟩ := Json.ordered_obj.mp hv
    cases loadedAs_of_load hv h with
    | obj hkeys hnode =>
      cases loadedAs_of_load hw h' with
      | obj hkeys' hnode' =>
        refine node_faithful hkeys hkeys' ?_ ?_ hnode hnode'
        · intro key v hkey hv
          exact ih (key, v) (mem_of_lookup hv) (hvalues (key, v) (mem_of_lookup hv) hkey)
        · intro key v hkey hv
          exact (Json.ordered_obj.mp hw).2 (key, v) (mem_of_lookup hv) hkey
      | _ => simp [Json.canonical]

end Expr

end KeywordScript
