import KeywordScript.Proofs.Atomicity
import KeywordScript.Proofs.Depth
import KeywordScript.Proofs.LoopVariable
import KeywordScript.Proofs.Sequence

/-! Blame: every failure comes from one job under way that fails by itself, and all that are around
it pass it on. What its fault says is therefore true of the machine that the job starts on, and of
the one that everything started on. -/

namespace KeywordScript

open Activation

theorem EvalM.failed_of_null {H α : Type} {x : EvalM H α} {m m' : Machine H} {f : Fault}
    (h : (do let _ ← x; return .null : EvalM H (Value H)) m = some (.failed f, m')) :
    x m = some (.failed f, m') := by
  rcases EvalM.bind_eq_some h with ⟨a, m₁, -, hpure⟩ | ⟨v, -, ho⟩ | ⟨f', hx, ho⟩
  · cases hpure
  · cases ho
  · cases ho
    exact hx

theorem EvalM.error_of_lift {H α : Type} {r : Except Fault α} {m m' : Machine H} {f : Fault}
    (h : (liftM r : EvalM H α) m = some (.failed f, m')) : r = .error f ∧ m' = m := by
  cases r with
  | ok a => cases h
  | error e =>
    cases h
    exact ⟨rfl, rfl⟩

namespace Activation

/-- The job fails with `f` by itself, not because of another that it starts. -/
inductive Raises : Activation → Fault → Prop where
  | keyword {k args m f} : k.FailsAtOnce args m f m → Raises ⟨.call (.builtin k) args, m⟩ f
  | native {n op args m f} :
    n.action = .math op → op.invoke args = .error f → Raises ⟨.call (.native n) args, m⟩ f
  | limit {g args m} : m.maxDepth ≤ m.depth →
    Raises ⟨.call (.func g) args, m⟩ (.depthExceeded m.maxDepth)
  | unread {c slot m f} : c.current slot m = some (.failed f, m) → Raises ⟨.passes c slot, m⟩ f
  | spoilt {c slot m x v m' f} : c.current slot m = some (.value x, m) → x ≤ c.stop →
    Ends ⟨.expr c.body none, m⟩ (.value v) m' → c.current slot m' = some (.failed f, m') →
    Raises ⟨.passes c slot, m⟩ f

/-- Some job that is under way meanwhile fails with `f` by itself. -/
def Origin (a : Activation) (f : Fault) : Prop :=
  ∃ b rest, UnderWay a (b :: rest) ∧ Raises b f

variable {a b : Activation} {f : Fault}

theorem Raises.origin (h : Raises a f) : Origin a f :=
  ⟨a, [], .start, h⟩

theorem Origin.of_starts (h : Starts a b) : Origin b f → Origin a f := by
  rintro ⟨c, rest, hc, hr⟩
  exact ⟨c, rest ++ [a], hc.of_starts h, hr⟩

section Steps

variable {n : Nat} {m m' : Machine Empty}
  (hev : ∀ {e line f m m'}, evaluate n e line m = some (.failed f, m') → Origin ⟨.expr e line, m⟩ f)

include hev

theorem origin_of_items {line : Nat} {es : List Expr}
    (h : evaluateItems (evaluate n) line es m = some (.failed f, m')) :
    Origin ⟨.items line es, m⟩ f := by
  induction es generalizing line m with
  | nil => cases h
  | cons e rest ih =>
    rcases EvalM.bind_eq_some h with ⟨v, m₁, he, hrest⟩ | ⟨v, -, ho⟩ | ⟨f', he, ho⟩
    · rcases EvalM.bind_eq_some hrest with ⟨vs, m₂, -, hpure⟩ | ⟨v, -, ho⟩ | ⟨f', hitems, ho⟩
      · cases hpure
      · cases ho
      · cases ho
        exact .of_starts (.nextItem ⟨n, he⟩) (ih hitems)
    · cases ho
    · cases ho
      exact .of_starts .item (hev he)

private theorem origin_of_passes {c : Count} {slot k : Nat}
    (h : c.passes slot (evaluate n c.body none) k m = some (.failed f, m')) :
    Origin ⟨.passes c slot, m⟩ f := by
  induction k generalizing m with
  | zero => cases h
  | succ k ih =>
    cases Count.turn_of_passes h with
    | unread hf => exact (Raises.unread hf).origin
    | broken hx hle hbody => exact .of_starts (.pass hx hle) (hev hbody)
    | spoilt hx hle hbody hf => exact (Raises.spoilt hx hle ⟨n, hbody⟩ hf).origin
    | next hx hle hbody hadvance hrest =>
      exact .of_starts (.nextPass hx hle ⟨n, hbody⟩ hadvance) (ih hrest)

private theorem origin_of_rounds {r : Repetition} {k : Nat}
    (h : EvalM.whileTruthy (evaluate n r.condition none) (evaluate n r.body none) k m =
      some (.failed f, m')) :
    Origin ⟨.rounds r, m⟩ f := by
  induction k generalizing m with
  | zero => cases h
  | succ k ih =>
    rcases EvalM.bind_eq_some h with ⟨v, m₁, hcondition, h⟩ | ⟨v, -, ho⟩ | ⟨f', hcondition, ho⟩
    · split at h
      · rename_i hv
        rcases EvalM.bind_eq_some h with ⟨w, m₂, hbody, hrest⟩ | ⟨v, -, ho⟩ | ⟨f', hbody, ho⟩
        · exact .of_starts (.nextRound ⟨n, hcondition⟩ hv ⟨n, hbody⟩) (ih hrest)
        · cases ho
        · cases ho
          exact .of_starts (.round ⟨n, hcondition⟩ hv) (hev hbody)
      · cases h
    · cases ho
    · cases ho
      exact .of_starts .condition (hev hcondition)

private theorem origin_of_body {g : Function} {args : List (Value Empty)}
    (h : (g.evaluateBody (evaluate n) args).inScope m = some (.failed f, m')) :
    Origin ⟨.body g args, m⟩ f := by
  obtain ⟨⟨o, m₁⟩, hbody, ho⟩ := Option.map_eq_some_iff.mp h
  cases ho
  exact .of_starts .body (origin_of_items hev hbody)

private theorem origin_of_keyword {k : Keyword} {args : List (Value Empty)}
    (h : KeywordScript.call (n + 1) (.builtin k) args m = some (.failed f, m')) :
    Origin ⟨.call (.builtin k) args, m⟩ f := by
  by_cases hchoose : k = .choose
  · subst hchoose
    rw [call_choose] at h
    split at h
    · rename_i hread
      cases h
      exact (Raises.keyword (Keyword.failsAtOnce_choose_iff.mpr ⟨hread, rfl⟩)).origin
    · cases h
    · rename_i hread
      exact .of_starts (.branch hread) (hev (EvalM.failed_of_null h))
  by_cases hcount : k = .count
  · subst hcount
    rw [call_count] at h
    split at h
    · rename_i hread
      cases h
      exact (Raises.keyword (Keyword.failsAtOnce_count_iff.mpr ⟨hread, rfl⟩)).origin
    · rename_i hread
      exact .of_starts (.count hread) (origin_of_passes hev (EvalM.failed_of_null h))
  by_cases hloop : k = .loop
  · subst hloop
    rw [call_loop] at h
    split at h
    · rename_i hread
      cases h
      exact (Raises.keyword (Keyword.failsAtOnce_loop_iff.mpr ⟨hread, rfl⟩)).origin
    · rename_i hread
      exact .of_starts (.loop hread) (origin_of_rounds hev (EvalM.failed_of_null h))
  rw [KeywordScript.call] at h
  have hm : m' = m := Keyword.atomic_invoke hchoose hcount hloop n args m _ _ h f rfl
  rw [hm, Keyword.invoke_eq_invoke hchoose hcount hloop n n _ fun _ _ => .exhausted] at h
  exact (Raises.keyword ⟨n, h⟩).origin

private theorem origin_of_call {callee : Value Empty} {args : List (Value Empty)}
    (h : KeywordScript.call (n + 1) callee args m = some (.failed f, m')) :
    Origin ⟨.call callee args, m⟩ f := by
  cases callee with
  | builtin k => exact origin_of_keyword hev h
  | native g =>
    rw [KeywordScript.call] at h
    cases haction : g.action with
    | math op =>
      rw [haction] at h
      obtain ⟨herror, -⟩ := EvalM.error_of_lift h
      exact (Raises.native haction herror).origin
    | host e => exact e.elim
  | func g =>
    rw [KeywordScript.call, Function.invoke_eq_asCall] at h
    by_cases hlt : m.depth < m.maxDepth
    · rw [EvalM.asCall_of_lt _ hlt] at h
      obtain ⟨⟨o, m₁⟩, hbody, ho⟩ := Option.map_eq_some_iff.mp h
      cases o with
      | value _ | returned _ => cases ho
      | failed _ =>
        cases ho
        exact .of_starts (.enter hlt) (origin_of_body hev hbody)
    · have hle := Nat.le_of_not_lt hlt
      rw [EvalM.asCall_of_le _ hle] at h
      cases h
      exact (Raises.limit hle).origin
  | _ => cases h

end Steps

/-- Every failure of an expression or a call has an origin. -/
theorem origin_of_failed (n : Nat) :
    (∀ {e line f m m'}, evaluate n e line m = some (.failed f, m') → Origin ⟨.expr e line, m⟩ f) ∧
      ∀ {callee args f m m'}, KeywordScript.call n callee args m = some (.failed f, m') →
        Origin ⟨.call callee args, m⟩ f := by
  induction n with
  | zero =>
    constructor
    · intro e line f m m' h
      obtain ⟨k, hk⟩ := exists_succ_of_evaluate h
      cases hk
    · intro callee args f m m' h
      obtain ⟨k, hk⟩ := exists_succ_of_call h
      cases hk
  | succ n ih =>
    obtain ⟨hev, hcall⟩ := ih
    refine ⟨?_, fun h => origin_of_call hev h⟩
    intro e line f m m' h
    cases e with
    | lit l =>
      rw [evaluate] at h
      cases h
    | script es =>
      rw [evaluate] at h
      rcases EvalM.bind_eq_some h with ⟨vs, m₁, -, hpure⟩ | ⟨v, -, ho⟩ | ⟨f', hscope, ho⟩
      · cases hpure
      · cases ho
      · cases ho
        obtain ⟨⟨o, m₁⟩, hitems, ho⟩ := Option.map_eq_some_iff.mp hscope
        cases ho
        exact .of_starts .script (origin_of_items hev hitems)
    | node k arg code ownLine =>
      rw [evaluate_node] at h
      rcases EvalM.bind_eq_some h with ⟨v, m₁, harg, hdispatch⟩ | ⟨v, -, ho⟩ | ⟨f', harg, ho⟩
      · cases hfind : m₁.find? k with
        | none =>
          rw [dispatch_of_not_find hfind] at hdispatch
          cases hdispatch
        | some callee =>
          rw [dispatch_of_find hfind] at hdispatch
          exact .of_starts (.call ⟨n, harg⟩ hfind) (hcall hdispatch)
      · cases ho
      · cases ho
        exact .of_starts .argument (hev harg)

end Activation

/-- An operator that is not defined on all values, with the kinds of two values that it cannot
take. -/
def Operator.Clashes (op : Operator) (left right : Kind) : Prop :=
  op.name ∈ ["ADD", "SUB", "MUL", "DIV", "MOD", ">", "<", ">=", "<="] ∧
  ¬(left = .number ∧ right = .number) ∧
  (op.name = "ADD" → left ≠ .string ∧ right ≠ .string) ∧
  (op.name ∈ [">", "<", ">=", "<="] → ¬(left = .string ∧ right = .string))

theorem Value.kind_eq_number_iff {H : Type} {v : Value H} : v.kind = .number ↔ ∃ x, v = .num x := by
  cases v <;> simp [Value.kind]

theorem Value.kind_eq_string_iff {H : Type} {v : Value H} : v.kind = .string ↔ ∃ s, v = .str s := by
  cases v <;> simp [Value.kind]

theorem Value.not_numbers {H : Type} {a b : Value H} (h : ∀ x y, a = .num x → b = .num y → False) :
    ¬(a.kind = .number ∧ b.kind = .number) := by
  rintro ⟨ha, hb⟩
  obtain ⟨x, rfl⟩ := Value.kind_eq_number_iff.mp ha
  obtain ⟨y, rfl⟩ := Value.kind_eq_number_iff.mp hb
  exact h x y rfl rfl

namespace Operator

variable {H : Type} {op : Operator} {a b : Value H} {f : Fault}

private theorem numeric_eq_error_iff {g : Float → Float → Float} :
    numeric op g a b = .error f ↔
      f = .mismatch op a.kind b.kind ∧ ¬(a.kind = .number ∧ b.kind = .number) := by
  unfold numeric
  split
  · simp [Value.kind]
  · rename_i hab
    have hkinds := Value.not_numbers hab
    exact ⟨fun h => ⟨(Except.error.inj h).symm, hkinds⟩, fun h => congrArg Except.error h.1.symm⟩

private theorem sum_eq_error_iff :
    sum a b = .error f ↔ f = .mismatch add a.kind b.kind ∧
      ¬(a.kind = .number ∧ b.kind = .number) ∧ a.kind ≠ .string ∧ b.kind ≠ .string := by
  unfold sum
  split
  · simp [Value.kind]
  · simp [Value.kind]
  · simp [Value.kind]
  · rename_i hleft hright hnumbers
    have hstring : a.kind ≠ .string ∧ b.kind ≠ .string := by
      constructor
      · intro ha
        obtain ⟨s, rfl⟩ := Value.kind_eq_string_iff.mp ha
        exact hleft s rfl
      · intro hb
        obtain ⟨t, rfl⟩ := Value.kind_eq_string_iff.mp hb
        exact hright t rfl
    have hkinds := Value.not_numbers hnumbers
    exact ⟨fun h => ⟨(Except.error.inj h).symm, hkinds, hstring⟩,
      fun h => congrArg Except.error h.1.symm⟩

private theorem ordered_eq_error_iff {accept : Ordering → Bool} :
    ordered op accept a b = .error f ↔ f = .mismatch op a.kind b.kind ∧
      ¬(a.kind = .number ∧ b.kind = .number) ∧ ¬(a.kind = .string ∧ b.kind = .string) := by
  have hnone : a.compare? b = none ↔
      ¬(a.kind = .number ∧ b.kind = .number) ∧ ¬(a.kind = .string ∧ b.kind = .string) := by
    unfold Value.compare?
    split
    · simp [Value.kind]
    · simp [Value.kind]
    · rename_i hnumbers hstrings
      refine iff_of_true rfl ⟨Value.not_numbers hnumbers, ?_⟩
      rintro ⟨ha, hb⟩
      obtain ⟨s, rfl⟩ := Value.kind_eq_string_iff.mp ha
      obtain ⟨t, rfl⟩ := Value.kind_eq_string_iff.mp hb
      exact hstrings s t rfl rfl
  unfold ordered
  rw [← hnone]
  split
  · rename_i order horder
    simp [horder]
  · rename_i h
    exact ⟨fun he => ⟨(Except.error.inj he).symm, h⟩, fun he => congrArg Except.error he.1.symm⟩

/-- An operator fails exactly on two values whose kinds it cannot take. -/
theorem combine_eq_error_iff :
    op.combine a b = .error f ↔ f = .mismatch op a.kind b.kind ∧ op.Clashes a.kind b.kind := by
  unfold combine
  cases op with
  | add =>
    rw [sum_eq_error_iff]
    simp [Clashes, name]
  | sub | mul | div | mod =>
    rw [numeric_eq_error_iff]
    simp [Clashes, name]
  | gt | lt | ge | le =>
    rw [ordered_eq_error_iff]
    simp [Clashes, name]
  | eq | ne | and | or => simp [Clashes, name]

end Operator

/-- What a fault says of the machine on which something fails with it. Faults of the arguments say
nothing of it. -/
def Fault.Justified (m : Machine Empty) : Fault → Prop
  | .unbound name => name ∉ m.stack.names
  | .depthExceeded limit => limit = m.maxDepth
  | .mismatch op left right => op.Clashes left right
  | .arity .. | .argument .. => True

namespace Fault

variable {m : Machine Empty} {f : Fault}

def OfArguments : Fault → Prop
  | .arity .. | .argument .. => True
  | _ => False

theorem OfArguments.justified (h : f.OfArguments) (m : Machine Empty) : f.Justified m := by
  cases f with
  | arity | argument => trivial
  | _ => exact h.elim

/-- What a fault says goes for every machine with fewer names and the same limit. -/
theorem Justified.of_fewer_names {m' : Machine Empty} (h : f.Justified m')
    (hnames : m.stack.names <+: m'.stack.names) (hlimit : m'.maxDepth = m.maxDepth) :
    f.Justified m := by
  cases f with
  | unbound name => exact fun hname => h (hnames.subset hname)
  | depthExceeded limit => exact h.trans hlimit
  | _ => exact h

end Fault

section Readers

variable {H α β : Type} {caller : String} {args : List (Value H)}

def BlamesArguments (r : Except Fault α) : Prop :=
  ∀ f, r = .error f → f.OfArguments

theorem blamesArguments_ok (a : α) : BlamesArguments (.ok a) :=
  nofun

theorem blamesArguments_error {f : Fault} (h : f.OfArguments) :
    BlamesArguments (.error f : Except Fault α) := by
  rintro _ ⟨⟩
  exact h

theorem BlamesArguments.bind {r : Except Fault α} {g : α → Except Fault β} (hr : BlamesArguments r)
    (hg : ∀ a, BlamesArguments (g a)) : BlamesArguments (r >>= g) := by
  cases r with
  | ok a => exact hg a
  | error f => exact blamesArguments_error (hr f rfl)

theorem Argument.blames_read {take? : Value H → Option α} {shape : Shape} {role : Role}
    (index : Nat) :
    BlamesArguments (Argument.read take? shape role caller args index) := by
  unfold Argument.read
  split
  · exact blamesArguments_error trivial
  · split
    · exact blamesArguments_ok _
    · exact blamesArguments_error trivial

theorem Argument.blames_splitCode : BlamesArguments (Argument.splitCode caller args) := by
  unfold Argument.splitCode
  split
  · exact blamesArguments_ok _
  · exact blamesArguments_error trivial
  · exact blamesArguments_error trivial

theorem MathOp.blames_invoke (op : MathOp) : BlamesArguments (op.invoke args) := by
  unfold MathOp.invoke
  split
  · exact blamesArguments_error trivial
  · exact (Argument.blames_read 0).bind fun _ => blamesArguments_ok _

theorem Binding.blames_read : BlamesArguments (Binding.read caller args) :=
  (Argument.blames_read 0).bind fun _ => blamesArguments_ok _

theorem Definition.blames_params? (index : Nat) :
    BlamesArguments (Definition.params? caller index args) := by
  fun_induction Definition.params? caller index args with
  | case1 => exact blamesArguments_ok _
  | case2 index s rest ih => exact ih.bind fun _ => blamesArguments_ok _
  | case3 => exact blamesArguments_error trivial

theorem Definition.blames_read : BlamesArguments (Definition.read args) := by
  refine Argument.blames_splitCode.bind fun (body, rest) => ?_
  dsimp only
  split
  · exact blamesArguments_error trivial
  · exact (Argument.blames_read 0).bind fun _ => (Definition.blames_params? 1).bind fun _ =>
      blamesArguments_ok _

theorem blames_chosenBranch : BlamesArguments (chosenBranch args) := by
  refine Argument.blames_splitCode.bind fun (branches, rest) => ?_
  cases rest with
  | nil => exact blamesArguments_error trivial
  | cons condition more => exact blamesArguments_ok _

theorem Count.blames_readStep (step : Option (Value H)) :
    BlamesArguments (Count.readStep step) := by
  unfold Count.readStep
  split
  · exact blamesArguments_ok _
  · exact blamesArguments_ok _
  · exact blamesArguments_ok _
  · exact blamesArguments_error trivial

theorem Count.blames_read : BlamesArguments (Count.read args) := by
  refine Argument.blames_splitCode.bind fun (body, rest) => ?_
  dsimp only
  split
  · exact blamesArguments_error trivial
  · refine (Argument.blames_read 0).bind fun _ => (Argument.blames_read 1).bind fun _ => ?_
    exact (Argument.blames_read 2).bind fun _ => (Count.blames_readStep _).bind fun _ =>
      blamesArguments_ok _

theorem Repetition.blames_read : BlamesArguments (Repetition.read args) := by
  refine Argument.blames_splitCode.bind fun (code, rest) => ?_
  dsimp only
  split
  · split
    · exact blamesArguments_ok _
    · exact blamesArguments_error trivial
  · exact blamesArguments_error trivial

end Readers

section Raised

variable {a b : Activation} {m m' : Machine Empty} {f : Fault} {args : List (Value Empty)}

private theorem Operator.justified_of_apply {op : Operator} (h : op.apply args = .error f) :
    f.Justified m := by
  unfold Operator.apply at h
  split at h
  · obtain ⟨rfl, hclash⟩ := Operator.combine_eq_error_iff.mp h
    exact hclash
  · cases h
    trivial

private theorem justified_of_increment {name : String}
    (h : increment name m = some (.failed f, m')) :
    f.Justified m := by
  rw [increment, EvalM.bind_of_value (a := m.stack.lookup? name) rfl] at h
  cases hlookup : m.stack.lookup? name with
  | none =>
    rw [hlookup] at h
    cases h
    exact Stack.lookup?_eq_none_iff.mp hlookup
  | some v =>
    rw [hlookup] at h
    cases v <;> cases h <;> trivial

/-- A keyword that fails by itself blames its arguments or its operands, or a name that is not
bound. -/
theorem Keyword.FailsAtOnce.justified {k : Keyword} (h : k.FailsAtOnce args m f m') :
    f.Justified m := by
  have hread : ∀ {α : Type} {r : Except Fault α}, BlamesArguments r →
      ∀ {g : α → Machine Empty → Machine Empty},
      (do .modify (g (← liftM r)); return .null : EvalM Empty (Value Empty)) m =
        some (.failed f, m') →
      f.Justified m := by
    intro α r hr g h
    obtain ⟨herror, -⟩ := EvalM.error_of_read (fun a => EvalM.ensures_modify_null (g a) m) h
    exact (hr f herror).justified m
  cases k with
  | operator op =>
    obtain ⟨n, h⟩ := h
    exact Operator.justified_of_apply (EvalM.error_of_lift h).1
  | bind =>
    obtain ⟨n, h⟩ := h
    exact hread Binding.blames_read h
  | assign =>
    obtain ⟨n, h⟩ := h
    exact hread Binding.blames_read h
  | define =>
    obtain ⟨n, h⟩ := h
    exact hread Definition.blames_read h
  | increment =>
    obtain ⟨n, h⟩ := h
    cases hname : Argument.name Keyword.increment.name args 0 with
    | error e =>
      cases (EvalM.read_of_error hname _ m).symm.trans h
      exact (Argument.blames_read 0 _ hname).justified m
    | ok name =>
      have hincrement := (EvalM.read_of_ok hname _ m).symm.trans h
      exact justified_of_increment (EvalM.failed_of_null hincrement)
  | leave | print =>
    obtain ⟨n, h⟩ := h
    cases h
  | choose => exact (blames_chosenBranch f (Keyword.failsAtOnce_choose_iff.mp h).1).justified m
  | count => exact (Count.blames_read f (Keyword.failsAtOnce_count_iff.mp h).1).justified m
  | loop => exact (Repetition.blames_read f (Keyword.failsAtOnce_loop_iff.mp h).1).justified m

/-- While `FOR` is under way it finds its frame, so that it never blames a name. -/
theorem Activation.UnderWay.justified_of_raises (ha : ∀ c slot, a.job ≠ .passes c slot)
    {rest : List Activation} (hb : UnderWay a (b :: rest)) (h : Raises b f) :
    f.Justified b.machine := by
  cases h with
  | keyword h => exact h.justified
  | native _ h => exact (MathOp.blames_invoke _ f h).justified _
  | limit _ => rfl
  | unread h =>
    obtain ⟨v, -, -, rfl, -⟩ := Count.stores_of_unread ha (.before hb) h
    trivial
  | spoilt hx hle he h =>
    obtain ⟨v, -, -, rfl, -⟩ := Count.stores_of_unread ha (.after (hb.next (.pass hx hle)) he) h
    trivial

theorem Activation.Origin.justified (ha : ∀ c slot, a.job ≠ .passes c slot) (h : Origin a f) :
    f.Justified a.machine := by
  obtain ⟨b, rest, hb, hraises⟩ := h
  exact (hb.justified_of_raises ha hraises).of_fewer_names hb.names_prefix hb.depth.2.1

end Raised

/-- Errors blame correctly. On a machine `m`, what an evaluation, a call or a run that fails says is
true of `m`: a name that it calls unbound has no frame there, a limit that it calls exceeded is the
one of `m`, and an operator with operands that it calls mismatched is one of arithmetic or order,
which cannot take values of these kinds. A run fails with a return outside a function exactly if its
script ends on the way out, with the value that it takes along, and with any other error exactly if
its script fails. -/
theorem errors_blame_correctly (m : Machine Empty) :
    (∀ fuel e line f m', evaluate fuel e line m = some (.failed f, m') → f.Justified m) ∧
    (∀ fuel callee args f m', call fuel callee args m = some (.failed f, m') → f.Justified m) ∧
    (∀ fuel script f m', m.run fuel script = some (.error (.fault f), m') → f.Justified m) ∧
    ∀ fuel init script m',
      (∀ v, m.runAfter fuel init script = some (.error (.returnOutside v), m') ↔
        evaluateScript fuel init script m = some (.returned v, m')) ∧
      ∀ f, m.runAfter fuel init script = some (.error (.fault f), m') ↔
        evaluateScript fuel init script m = some (.failed f, m') := by
  refine ⟨?_, ?_, ?_, ?_⟩
  · intro fuel e line f m' h
    exact ((origin_of_failed fuel).1 h).justified (by simp)
  · intro fuel callee args f m' h
    exact ((origin_of_failed fuel).2 h).justified (by simp)
  · intro fuel script f m' h
    obtain ⟨o, ho, hscript⟩ := Machine.runAfter_eq_some_iff.mp h
    rw [Outcome.toExcept_eq_fault_iff.mp ho] at hscript
    obtain ⟨m₁, hitems, -⟩ := exists_open_of_evaluateScript hscript
    exact (origin_of_items (origin_of_failed fuel).1 hitems).justified (by simp)
  · intro fuel init script m'
    simp only [Machine.runAfter_eq_some_iff, Outcome.toExcept_eq_returnOutside_iff,
      Outcome.toExcept_eq_fault_iff, exists_eq_left, implies_true, and_self]

/-- Inside a branch of `IF`: `INC` of a name that is not bound, a call where none may be under way,
and `ADD` of null and a number. At the end of a run: `RETURN`. -/
theorem errors_blame_correctly_in_branch :
    let m : Machine Empty :=
      { stack := ⟨[⟨"x", .num 1⟩,
        ⟨"f", .func { id := 0, name := "f", params := [], body := .lit .null }⟩]⟩,
        maxDepth := 0 }
    let branch (e : Expr) : Expr :=
      .script [.node "IF" (.lit (.bool true)) (some ⟨{ document := 0 }, .script [e]⟩) none]
    (∃ m', evaluate 9 (branch (.node "INC" (.lit (.str "y")) none none)) none m =
      some (.failed (.unbound "y"), m') ∧ "y" ∉ m.stack.names) ∧
    (∃ m', evaluate 9 (branch (.node "f" (.lit .null) none none)) none m =
      some (.failed (.depthExceeded 0), m') ∧ 0 = m.maxDepth) ∧
    (∃ m', evaluate 9 (branch (.node "ADD" (.script [.lit .null, .lit (.num 1)]) none none))
        none m = some (.failed (.mismatch .add .null .number), m') ∧
      Operator.add.Clashes .null .number) ∧
    ∃ m', m.run 9 [.node "RETURN" (.lit (.bool true)) none none] =
      some (.error (.returnOutside (.bool true)), m') := by
  intro m branch
  obtain ⟨hevaluate, -, -, hrun⟩ := errors_blame_correctly m
  refine ⟨⟨_, rfl, ?_⟩, ⟨_, rfl, ?_⟩, ⟨_, rfl, ?_⟩, ?_⟩
  · exact hevaluate 9 (branch (.node "INC" (.lit (.str "y")) none none)) none _ _ rfl
  · exact hevaluate 9 (branch (.node "f" (.lit .null) none none)) none _ _ rfl
  · exact hevaluate 9 (branch (.node "ADD" (.script [.lit .null, .lit (.num 1)]) none none))
      none _ _ rfl
  · exact ⟨_, ((hrun 9 (pure ()) [.node "RETURN" (.lit (.bool true)) none none] _).1 _).mpr rfl⟩

end KeywordScript
