import KeywordScript.Proofs.Canonical

/-! Documents for expressions: `Expr.toJson` writes an expression, and what it writes is loaded as
the expression again. Together with what loading keeps, this says which expressions there are
documents for. -/

namespace KeywordScript

namespace Json

/-- A document has this number in it, at any depth. -/
inductive HasNumber (n : Numeral) : Json → Prop where
  | here : HasNumber n (.num n)
  | item {items : List Json} {v : Json} : v ∈ items → HasNumber n v → HasNumber n (.arr items)
  | member {members : List (String × Json)} {key : String} {v : Json} :
    (key, v) ∈ members → HasNumber n v → HasNumber n (.obj members)

def FiniteNumbers (v : Json) : Prop :=
  ∀ n, v.HasNumber n → n.toFloat.isFinite = true

theorem finiteNumbers_num {n : Numeral} :
    (Json.num n).FiniteNumbers ↔ n.toFloat.isFinite = true := by
  constructor
  · exact fun h => h n .here
  · intro h n' hn'
    cases hn'
    exact h

theorem finiteNumbers_arr {items : List Json} :
    (Json.arr items).FiniteNumbers ↔ ∀ v ∈ items, v.FiniteNumbers := by
  constructor
  · exact fun h v hv n hn => h n (.item hv hn)
  · intro h n hn
    cases hn with
    | item hv hn => exact h _ hv n hn

theorem finiteNumbers_obj {members : List (String × Json)} :
    (Json.obj members).FiniteNumbers ↔ ∀ member ∈ members, member.2.FiniteNumbers := by
  constructor
  · exact fun h member hmember n hn => h n (.member hmember hn)
  · intro h n hn
    cases hn with
    | member hv hn => exact h _ hv n hn

end Json

def Literal.toJson : Literal → Json
  | .null => .null
  | .bool b => .bool b
  | .num x => .num (.real x)
  | .str s => .str s

namespace Expr

/-- What an expression must be like for a document to write it: its numbers are finite, no keyword
is a reserved field, and each line is an integer of 32 bits. -/
inductive Writable : Expr → Prop where
  | lit {l : Literal} : (∀ x, l = .num x → x.isFinite = true) → Writable (.lit l)
  | script {es : List Expr} : (∀ e ∈ es, Writable e) → Writable (.script es)
  | node {k : String} {arg : Expr} {code : Option Code} {line : Option Nat} :
    k ≠ "line" → k ≠ "script" →
    Writable arg → (∀ c, code = some c → Writable c.body) → (∀ n, line = some n → n < UInt32.size) →
    Writable (.node k arg code line)

/-- The places of code do not matter. -/
theorem Writable.of_unsited_eq {e e' : Expr} (h : e.Writable) (heq : e'.unsited = e.unsited) :
    e'.Writable := by
  induction h generalizing e' with
  | @lit l hl =>
    cases e' with
    | lit l' =>
      simp only [unsited_lit, lit.injEq] at heq
      exact heq ▸ .lit hl
    | script _ => simp at heq
    | node _ _ _ _ => simp at heq
  | @script es _ ih =>
    cases e' with
    | lit _ => simp at heq
    | script es' =>
      simp only [unsited_script, script.injEq] at heq
      refine .script fun e' he' => ?_
      have hmem : e'.unsited ∈ es.map unsited := heq ▸ List.mem_map_of_mem he'
      obtain ⟨e, he, hsame⟩ := List.mem_map.mp hmem
      exact ih e he hsame.symm
    | node _ _ _ _ => simp at heq
  | @node k arg code line hline hscript _ _ hsize iharg ihcode =>
    cases e' with
    | lit _ => simp at heq
    | script _ => simp at heq
    | node k' arg' code' line' =>
      simp only [unsited_node, node.injEq] at heq
      obtain ⟨rfl, harg, hcode, rfl⟩ := heq
      refine .node hline hscript (iharg harg) ?_ hsize
      rintro c' rfl
      obtain ⟨c, rfl, hc⟩ := Option.map_eq_some_iff.mp hcode.symm
      exact ihcode c rfl (congrArg Sited.body hc).symm

theorem writable_of_load {v : Json} {site : Site} {e : Expr} (hv : v.Ordered)
    (hfinite : v.FiniteNumbers) (h : load site v = .ok e) : e.Writable := by
  induction v using Json.induction generalizing site e with
  | null | bool _ | str _ =>
    cases h
    exact .lit nofun
  | num n =>
    cases h
    refine .lit fun x hx => ?_
    cases hx
    exact Json.finiteNumbers_num.mp hfinite
  | arr items ih =>
    have hitems := Json.ordered_arr.mp hv
    have hfinite := Json.finiteNumbers_arr.mp hfinite
    obtain ⟨es, rfl, hes⟩ := load_arr_eq_ok h
    refine .script fun e he => ?_
    obtain ⟨v, hmem, site, hload⟩ := exists_loads_of_mem hes he
    exact ih v hmem (hitems v hmem) (hfinite v hmem) hload
  | obj members ih =>
    obtain ⟨hkeys, hvalues⟩ := Json.ordered_obj.mp hv
    have hfinite := Json.finiteNumbers_obj.mp hfinite
    obtain ⟨k, arg, code, line, rfl, hnode⟩ := (load_obj_eq_ok_iff hkeys).mp h
    have hwritable : ∀ {key v site e}, key ≠ lineField → members.lookup key = some v →
        load site v = .ok e → e.Writable := by
      intro key v site e hkey hlookup
      have hmem := mem_of_lookup hlookup
      exact ih (key, v) hmem (hvalues _ hmem hkey) (hfinite _ hmem)
    have hk := ne_lineField_of_not_reserved hnode.keyword
    obtain ⟨v, hlookup, hload⟩ := hnode.argument
    refine .node hk (ne_codeField_of_not_reserved hnode.keyword) (hwritable hk hlookup hload) ?_
      (Json.lookup_canonicalMembers_line hkeys hnode.line).1
    rintro c rfl
    rcases codeOf_loadMembers_eq_ok_iff.mp hnode.code with
      ⟨-, hnone⟩ | ⟨v, body, hlookup, hload, hc⟩
    · cases hnone
    · cases hc
      exact hwritable (by decide) hlookup hload

def lineMembers (line : Option Nat) : List (String × Json) :=
  (line.map fun n => (lineField, .num (.natural (UInt64.ofNat n)))).toList

mutual

def toJson : Expr → Json
  | .lit l => l.toJson
  | .script es => .arr (itemsToJson es)
  | .node k arg none line => .obj (Json.insertMember k arg.toJson (lineMembers line))
  | .node k arg (some code) line =>
    .obj (Json.insertMember k arg.toJson (lineMembers line ++ [(codeField, code.body.toJson)]))

def itemsToJson : List Expr → List Json
  | [] => []
  | e :: rest => e.toJson :: itemsToJson rest

end

theorem itemsToJson_eq_map (es : List Expr) : itemsToJson es = es.map toJson := by
  induction es with
  | nil => rfl
  | cons e rest ih => rw [itemsToJson, ih, List.map_cons]

/-- The fields of a node beside its keyword. -/
def reservedMembers (code : Option Code) (line : Option Nat) : List (String × Json) :=
  lineMembers line ++ (code.map fun c => (codeField, c.body.toJson)).toList

theorem toJson_node (k : String) (arg : Expr) (code : Option Code) (line : Option Nat) :
    (node k arg code line).toJson =
      .obj (Json.insertMember k arg.toJson (reservedMembers code line)) := by
  cases code with
  | none => rw [toJson, reservedMembers, Option.map_none, Option.toList_none, List.append_nil]
  | some c => rw [toJson, reservedMembers, Option.map_some, Option.toList_some]

private theorem pairwise_reservedMembers (code : Option Code) (line : Option Nat) :
    (reservedMembers code line).Pairwise fun a b => a.1 < b.1 := by
  cases line with
  | none => cases code <;> simp [reservedMembers, lineMembers]
  | some n =>
    cases code with
    | none => exact List.pairwise_singleton _ _
    | some c =>
      refine List.pairwise_cons.mpr ⟨fun member hmember => ?_, List.pairwise_singleton _ _⟩
      cases List.mem_singleton.mp hmember
      exact (by decide : lineField < codeField)

theorem lookup_reservedMembers (code : Option Code) (line : Option Nat) (key : String) :
    (reservedMembers code line).lookup key =
      if key = lineField then line.map fun n => .num (.natural (UInt64.ofNat n))
      else if key = codeField then code.map fun c => c.body.toJson
      else none := by
  have hne : codeField ≠ lineField := by decide
  cases code with
  | none => cases line <;> simp [reservedMembers, lineMembers, lookup_cons_eq]
  | some c => cases line <;> grind [reservedMembers, lineMembers, lookup_cons_eq]

/-- What is loaded from the document of an expression is the expression, but for the places of
code. -/
structure Written (e : Expr) : Prop where
  ordered : e.toJson.Ordered
  finite : e.toJson.FiniteNumbers
  loaded : ∀ site, ∃ e', load site e.toJson = .ok e' ∧ e'.unsited = e.unsited

private theorem written_lit {l : Literal} (h : ∀ x, l = .num x → x.isFinite = true) :
    Written (.lit l) := by
  cases l with
  | num x =>
    refine ⟨fun _ hobject => ?_, Json.finiteNumbers_num.mpr (h x rfl), fun _ => ⟨_, rfl, rfl⟩⟩
    cases hobject
  | null | bool _ | str _ =>
    refine ⟨fun _ hobject => ?_, fun _ hnumber => ?_, fun _ => ⟨_, rfl, rfl⟩⟩
    · cases hobject
    · cases hnumber

private theorem loadItems_written {es : List Expr} (h : ∀ e ∈ es, Written e) (site : Site)
    (index : Nat) :
    ∃ es', loadItems site index (es.map toJson) = .ok es' ∧ es'.map unsited = es.map unsited := by
  induction es generalizing index with
  | nil => exact ⟨[], rfl, rfl⟩
  | cons e rest ih =>
    obtain ⟨e', hload, hsame⟩ := (h e List.mem_cons_self).loaded (site.part (.item index))
    obtain ⟨rest', hrest, hsames⟩ := ih (fun e he => h e (List.mem_cons_of_mem _ he)) (index + 1)
    refine ⟨e' :: rest', ?_, ?_⟩
    · rw [List.map_cons, loadItems, hload]
      simp only [bind, Except.bind]
      rw [hrest]
      rfl
    · rw [List.map_cons, List.map_cons, hsame, hsames]

private theorem written_script {es : List Expr} (h : ∀ e ∈ es, Written e) :
    Written (.script es) := by
  have hjson : (script es).toJson = .arr (es.map toJson) := by rw [toJson, itemsToJson_eq_map]
  refine ⟨?_, ?_, fun site => ?_⟩
  · rw [hjson, Json.ordered_arr, List.forall_mem_map]
    exact fun e he => (h e he).ordered
  · rw [hjson, Json.finiteNumbers_arr, List.forall_mem_map]
    exact fun e he => (h e he).finite
  · obtain ⟨es', hload, hsame⟩ := loadItems_written h site 0
    refine ⟨.script es', ?_, ?_⟩
    · rw [hjson, load, hload]
      rfl
    · rw [unsited_script, unsited_script, hsame]

section Node

variable {k : String} {arg arg' : Expr} {code code' : Option Code} {line : Option Nat} {site : Site}

theorem mem_nodeMembers {member : String × Json}
    (h : member ∈ Json.insertMember k arg.toJson (reservedMembers code line)) :
    member = (k, arg.toJson) ∨
      (∃ n, line = some n ∧ member = (lineField, .num (.natural (UInt64.ofNat n)))) ∨
      ∃ c, code = some c ∧ member = (codeField, c.body.toJson) := by
  rcases Json.mem_insertMember h with h | h
  · exact .inl h
  · rw [reservedMembers, lineMembers, List.mem_append, Option.mem_toList, Option.mem_toList,
      Option.map_eq_some_iff, Option.map_eq_some_iff] at h
    rcases h with ⟨n, hn, rfl⟩ | ⟨c, hc, rfl⟩
    · exact .inr (.inl ⟨n, hn, rfl⟩)
    · exact .inr (.inr ⟨c, hc, rfl⟩)

private theorem lineOf_nodeMembers (hk : isReserved k = false)
    (hsize : ∀ n, line = some n → n < UInt32.size) :
    lineOf (Json.insertMember k arg.toJson (reservedMembers code line)) = .ok line := by
  have hlookup : (Json.insertMember k arg.toJson (reservedMembers code line)).lookup lineField =
      line.map fun n => .num (.natural (UInt64.ofNat n)) := by
    rw [Json.lookup_insertMember, if_neg (ne_lineField_of_not_reserved hk).symm,
      lookup_reservedMembers, if_pos rfl]
  rw [lineOf, hlookup]
  cases line with
  | none => rfl
  | some n =>
    have hn := hsize n rfl
    simp [Number.toNat_ofNat_of_lt_size hn, hn]

/-- The document of a node describes it, once its parts are loaded. -/
theorem describes_nodeMembers (hk : isReserved k = false)
    (harg : load (site.part .argument) arg.toJson = .ok arg')
    (hcode : (code = none ∧ code' = none) ∨ ∃ c body, code = some c ∧
      load (site.part .code) c.body.toJson = .ok body ∧ code' = some ⟨site.part .code, body⟩)
    (hsize : ∀ n, line = some n → n < UInt32.size) :
    Describes site (Json.insertMember k arg.toJson (reservedMembers code line)) k arg'
      code' line where
  keyword := hk
  argument := ⟨arg.toJson, by rw [Json.lookup_insertMember, if_pos rfl], harg⟩
  others := by
    intro key hne hkey
    rw [Json.lookup_insertMember, if_neg hne, lookup_reservedMembers,
      if_neg (ne_lineField_of_not_reserved hkey), if_neg (ne_codeField_of_not_reserved hkey)]
  code := by
    have hlookup : (Json.insertMember k arg.toJson (reservedMembers code line)).lookup codeField =
        code.map fun c => c.body.toJson := by
      rw [Json.lookup_insertMember, if_neg (ne_codeField_of_not_reserved hk).symm,
        lookup_reservedMembers, if_neg (by decide), if_pos rfl]
    rw [codeOf_loadMembers_eq_ok_iff, hlookup]
    rcases hcode with ⟨rfl, rfl⟩ | ⟨c, body, rfl, hload, rfl⟩
    · exact .inl ⟨rfl, rfl⟩
    · exact .inr ⟨_, body, rfl, hload, rfl⟩
  line := lineOf_nodeMembers hk hsize

private theorem written_node (hline : k ≠ "line") (hscript : k ≠ "script") (harg : Written arg)
    (hcode : ∀ c, code = some c → Written c.body) (hsize : ∀ n, line = some n → n < UInt32.size) :
    Written (.node k arg code line) := by
  have hk : isReserved k = false := by simp [isReserved, lineField, codeField, hline, hscript]
  have hkeys := Json.pairwise_insertMember (pairwise_reservedMembers code line) k arg.toJson
  refine ⟨?_, ?_, fun site => ?_⟩
  · rw [toJson_node, Json.ordered_obj]
    refine ⟨hkeys, fun member hmember hne => ?_⟩
    rcases mem_nodeMembers hmember with rfl | ⟨n, -, rfl⟩ | ⟨c, hc, rfl⟩
    · exact harg.ordered
    · exact absurd rfl hne
    · exact (hcode c hc).ordered
  · rw [toJson_node, Json.finiteNumbers_obj]
    intro member hmember
    rcases mem_nodeMembers hmember with rfl | ⟨n, hn, rfl⟩ | ⟨c, hc, rfl⟩
    · exact harg.finite
    · have hlt := hsize n hn
      exact Json.finiteNumbers_num.mpr
        (Number.isFinite_toFloat_of_lt_size ((Number.toNat_ofNat_of_lt_size hlt).symm ▸ hlt))
    · exact (hcode c hc).finite
  · obtain ⟨arg', hload, hsame⟩ := harg.loaded (site.part .argument)
    rw [toJson_node]
    cases code with
    | none =>
      have hnode := describes_nodeMembers hk hload (.inl ⟨rfl, rfl⟩) hsize
      exact ⟨_, (load_obj_eq_ok_iff hkeys).mpr ⟨_, _, _, _, rfl, hnode⟩, by simp [hsame]⟩
    | some c =>
      obtain ⟨body, hbody, hsameBody⟩ := (hcode c rfl).loaded (site.part .code)
      have hnode := describes_nodeMembers hk hload (.inr ⟨c, body, rfl, hbody, rfl⟩) hsize
      exact ⟨_, (load_obj_eq_ok_iff hkeys).mpr ⟨_, _, _, _, rfl, hnode⟩, by simp [hsame, hsameBody]⟩

end Node

theorem Writable.written {e : Expr} (h : e.Writable) : Written e := by
  induction h with
  | lit h => exact written_lit h
  | script _ ih => exact written_script ih
  | node hline hscript _ _ hsize iharg ihcode => exact written_node hline hscript iharg ihcode hsize

/-- Loading loses nothing and reaches every expression that can be written. Two documents that are
loaded are loaded as the same expression, but for the places of code, exactly if they have the same
canonical form. And the expressions that are loaded from documents with finite numbers are, up to
the places of code, those with finite numbers, no reserved keywords and lines of 32 bits. -/
theorem loading_faithful_and_complete :
    (∀ {v w : Json} {site site' : Site} {e e' : Expr}, v.Ordered → w.Ordered →
      load site v = .ok e → load site' w = .ok e' →
        (e.unsited = e'.unsited ↔ v.canonical = w.canonical)) ∧
    ∀ (site : Site) (e : Expr),
      (∃ v e', v.Ordered ∧ v.FiniteNumbers ∧ load site v = .ok e' ∧ e'.unsited = e.unsited) ↔
        e.Writable := by
  refine ⟨fun hv hw h h' => faithful hv hw h h', fun site e => ⟨?_, ?_⟩⟩
  · rintro ⟨v, e', hv, hfinite, hload, hsame⟩
    exact (writable_of_load hv hfinite hload).of_unsited_eq hsame.symm
  · intro h
    obtain ⟨hordered, hfinite, hloaded⟩ := h.written
    obtain ⟨e', hload, hsame⟩ := hloaded site
    exact ⟨e.toJson, e', hordered, hfinite, hload, hsame⟩

/-- An integer with an empty line and a float without one, in two documents. The code is null, which
is not the same as no code. -/
theorem loading_faithful_and_complete_at_empty_line :
    let v : Json := .obj [("F", .num (.natural 1)), ("line", .null), ("script", .null)]
    let w : Json := .obj [("F", .num (.real 1)), ("script", .null)]
    let u : Json := .obj [("F", .num (.real 1))]
    let node (document : Nat) : Expr :=
      .node "F" (.lit (.num 1)) (some ⟨{ document, path := [.code] }, .lit .null⟩) none
    let bare : Expr := .node "F" (.lit (.num 1)) none none
    v.Ordered ∧ w.Ordered ∧ u.Ordered ∧ u.FiniteNumbers ∧ load { document := 0 } v = .ok (node 0) ∧
      load { document := 1 } w = .ok (node 1) ∧ load { document := 2 } u = .ok bare ∧
      (node 0).unsited = (node 1).unsited ∧ w.canonical ≠ u.canonical ∧ bare.Writable := by
  intro v w u node bare
  have hnum : ∀ n, (Json.num n).Ordered := fun _ _ h => by cases h
  have hv : v.Ordered := Json.ordered_obj.mpr ⟨by decide, by simp [hnum, Json.ordered_null]⟩
  have hw : w.Ordered := Json.ordered_obj.mpr ⟨by decide, by simp [hnum, Json.ordered_null]⟩
  have hu : u.Ordered := Json.ordered_obj.mpr ⟨by decide, by simp [hnum]⟩
  have hloadv : load { document := 0 } v = .ok (node 0) := rfl
  have hloadw : load { document := 1 } w = .ok (node 1) := rfl
  have hloadu : load { document := 2 } u = .ok bare := rfl
  have hfinite : u.FiniteNumbers := by
    refine Json.finiteNumbers_obj.mpr fun member hmember => ?_
    cases List.mem_singleton.mp hmember
    exact Json.finiteNumbers_num.mpr (by decide)
  obtain ⟨hfaithful, hcomplete⟩ := loading_faithful_and_complete
  refine ⟨hv, hw, hu, hfinite, hloadv, hloadw, hloadu,
    (hfaithful hv hw hloadv hloadw).mpr rfl, ?_, ?_⟩
  · intro hsame
    cases (hfaithful hw hu hloadw hloadu).mpr hsame
  · exact (hcomplete { document := 2 } bare).mp ⟨u, bare, hu, hfinite, hloadu, rfl⟩

end Expr

end KeywordScript
