import KeywordScript.Expr.Load
import KeywordScript.Proofs.Depth
import KeywordScript.Proofs.Progress

/-! Termination: a run of a script without `FOR` and `WHILE` ends exactly when the `IF`s that have
no code of their own stand inside each other only so often. Function calls are bounded by their
limit, but nothing bounds code that is taken from a name. -/

namespace KeywordScript

mutual

/-- Whether every node passes a test on its keyword and its code. The test is made in scripts, in
arguments and in code alike. -/
def Expr.every (test : String → Option Code → Bool) : Expr → Bool
  | .lit _ => true
  | .script es => everyItem test es
  | .node k arg none _ => test k none && arg.every test
  | .node k arg (some code) _ => test k (some code) && arg.every test && code.body.every test

def everyItem (test : String → Option Code → Bool) : List Expr → Bool
  | [] => true
  | e :: rest => e.every test && everyItem test rest

end

private theorem everyItem_iff {test : String → Option Code → Bool} {es : List Expr} :
    everyItem test es = true ↔ ∀ e ∈ es, e.every test = true := by
  induction es with
  | nil => simp [everyItem]
  | cons e rest ih => simp [everyItem, ih]

theorem Expr.every_node {test : String → Option Code → Bool} {k : String} {arg : Expr}
    {code : Option Code} {line : Option Nat} (h : (Expr.node k arg code line).every test = true) :
    test k code = true ∧ arg.every test = true ∧ ∀ c, code = some c → c.body.every test = true := by
  cases code with
  | none =>
    simp only [Expr.every, Bool.and_eq_true] at h
    exact ⟨h.1, h.2, nofun⟩
  | some c =>
    simp only [Expr.every, Bool.and_eq_true] at h
    exact ⟨h.1.1, h.1.2, by simpa using h.2⟩

/-- The node is neither `FOR` nor `WHILE`. -/
def isLoopFree (k : String) (_ : Option Code) : Bool :=
  k != Keyword.count.name && k != Keyword.loop.name

/-- The node is not `IF`, or has code of its own. -/
def ownsBranches (k : String) (code : Option Code) : Bool :=
  k != Keyword.choose.name || code.isSome

/-- Data in which all code satisfies `p`. -/
inductive Value.Carries (p : Expr → Prop) : Value Empty → Prop where
  | null : Carries p .null
  | bool (b : Bool) : Carries p (.bool b)
  | num (x : Float) : Carries p (.num x)
  | str (s : String) : Carries p (.str s)
  | list {vs : List (Value Empty)} : (∀ v ∈ vs, Carries p v) → Carries p (.list vs)
  | code {c : Code} : p c.body → Carries p (.code c)

/-- Data, or a function; in both all code satisfies `p`. -/
def Value.Bindable (p : Expr → Prop) (v : Value Empty) : Prop :=
  v.Carries p ∨ ∃ f, v = .func f ∧ p f.body

/-- No name is bound to a keyword, so each keyword is found under its own name only. -/
theorem Machine.find?_cases {p : Expr → Prop} {m : Machine Empty} (hm : m.Holds (Value.Bindable p))
    {name : String} {v : Value Empty} (h : m.find? name = some v) :
    v.Bindable p ∨ ∃ k, v = .builtin k ∧ k.name = name := by
  rcases hm.find?_cases h with hv | ⟨k, hk, rfl⟩
  · exact .inl hv
  · exact .inr ⟨k, rfl, Keyword.name_of_ofName? hk⟩

/-- Evaluated code comes from the source: it passes a test when the source does. -/
def Discipline.sources (test : String → Option Code → Bool) : Discipline where
  source e := e.every test = true
  data := Value.Carries (·.every test = true)
  returned _ := Value.Carries (·.every test = true)
  frame := Value.Bindable (·.every test = true)
  callee _ v := v.Bindable (·.every test = true) ∨ ∃ k code, v = .builtin k ∧
    test k.name code = true
  items h := everyItem_iff.mp h
  argument h := (Expr.every_node h).2.1
  code h := .code ((Expr.every_node h).2.2 _ rfl)
  body h := by
    cases h with
    | code h => exact h
  literal l := by cases l <;> constructor
  list h := .list h
  elements h := by
    cases h with
    | list h => exact h
  held h := .inl h
  defined h := .inr ⟨_, rfl, h⟩
  found h hm hf := by
    rcases Machine.find?_cases hm hf with hv | ⟨k, rfl, hk⟩
    · exact .inl hv
    · exact .inr ⟨k, _, rfl, hk ▸ (Expr.every_node h).1⟩
  plain h hkind := by
    rcases h with (h | ⟨f, rfl, -⟩) | ⟨k, -, rfl, -⟩
    · exact h
    · exact absurd rfl hkind
    · exact absurd rfl hkind
  function h := by
    rcases h with (h | ⟨f, hf, h⟩) | ⟨k, -, hk, -⟩
    · cases h
    · cases hf
      exact h
    · cases hk
  leave _ h := h
  passed _ h := h
  caught h := h

theorem Discipline.sources_setsNumbers (test : String → Option Code → Bool) :
    (Discipline.sources test).SetsNumbers :=
  fun _ _ _ _ _ => trivial

theorem Discipline.sources_governs {test : String → Option Code → Bool} {script : List Expr}
    {m : Machine Empty} (hm : m.stack.frames = []) (hs : ∀ e ∈ script, e.every test = true) :
    (Discipline.sources test).Governs ⟨.items 1 script, m⟩ := by
  refine ⟨fun f hf => ?_, hs⟩
  change f ∈ m.stack.frames at hf
  rw [hm] at hf
  cases hf

private theorem sizeOf_le_of_mem_items {e e' : Expr} (h : e' ∈ e.items) : sizeOf e' ≤ sizeOf e := by
  cases e with
  | script es =>
    have hlt : sizeOf e' < sizeOf es := List.sizeOf_lt_of_mem h
    simp only [Expr.script.sizeOf_spec]
    omega
  | lit l => rw [List.mem_singleton.mp h]
  | node k arg code line => rw [List.mem_singleton.mp h]

namespace Activation

variable {a b : Activation}

/-- Whether a job is an `IF` that has no code of its own. -/
def isBorrowing (a : Activation) : Bool :=
  match a.job with
  | .expr (.node k _ none _) _ => k == Keyword.choose.name
  | _ => false

def borrowed (stack : List Activation) : Nat :=
  stack.countP isBorrowing

@[simp] theorem borrowed_append (stack stack' : List Activation) :
    borrowed (stack ++ stack') = borrowed stack + borrowed stack' :=
  List.countP_append

/-- Whether a job makes the passes of `FOR` or the rounds of `WHILE`. -/
def isLooping (a : Activation) : Bool :=
  match a.job with
  | .passes .. | .rounds .. => true
  | _ => false

/-- A job of a run without `FOR` and `WHILE`. -/
structure LoopFree (a : Activation) : Prop where
  governs : (Discipline.sources isLoopFree).Governs a
  notLooping : a.isLooping = false

theorem LoopFree.not_loop {k : Keyword} {args : List (Value Empty)} {m : Machine Empty}
    (h : LoopFree ⟨.call (.builtin k) args, m⟩) : k ≠ .count ∧ k ≠ .loop := by
  obtain ⟨-, hcallee, -⟩ := h.governs
  rcases hcallee with (hc | ⟨f, hf, -⟩) | ⟨k', code, hk, htest⟩
  · cases hc
  · cases hf
  · cases hk
    constructor
    · rintro rfl
      simp [isLoopFree] at htest
    · rintro rfl
      simp [isLoopFree] at htest

theorem LoopFree.of_starts (ha : a.LoopFree) (h : Starts a b) : b.LoopFree := by
  refine ⟨ha.governs.of_starts (Discipline.sources_setsNumbers _) h, ?_⟩
  have hnot := ha.notLooping
  cases h with
  | count => exact absurd rfl ha.not_loop.1
  | loop => exact absurd rfl ha.not_loop.2
  | pass | nextPass | condition | round | nextRound => cases hnot
  | _ => rfl

/-- The size of what a job has before it as long as no body of a function starts. A call of `IF` has
the code it was given. -/
noncomputable def rank (a : Activation) : Nat :=
  match a.job with
  | .expr e _ => sizeOf e
  | .items _ es => sizeOf es
  | .call (.builtin .choose) args =>
    match args.getLast? with
    | some (.code c) => sizeOf c
    | _ => 0
  | .body f _ => sizeOf f.body.items + 1
  | _ => 0

private theorem rank_call_of_ne {callee : Value Empty} (h : callee ≠ .builtin .choose)
    (args : List (Value Empty)) (m : Machine Empty) : rank ⟨.call callee args, m⟩ = 0 := by
  cases callee with
  | builtin k =>
    cases k with
    | choose => exact absurd rfl h
    | _ => rfl
  | _ => rfl

theorem rank_choose {args : List (Value Empty)} {c : Code} (h : args.getLast? = some (.code c))
    (m : Machine Empty) : rank ⟨.call (.builtin .choose) args, m⟩ = sizeOf c := by
  simp only [rank, h]

/-- Only bodies and borrowed code start something that is not smaller. -/
theorem LoopFree.rank_lt (ha : a.LoopFree) (h : Starts a b) :
    b.isBody = true ∨ a.isBorrowing = true ∨ b.rank < a.rank := by
  have hgov := ha.governs
  have hnot := ha.notLooping
  cases h with
  | script | item | nextItem | argument =>
    right; right
    simp only [rank, Expr.script.sizeOf_spec, Expr.node.sizeOf_spec, List.cons.sizeOf_spec]
    omega
  | @call k arg code line context m v m' callee he hf =>
    by_cases hc : callee = .builtin .choose
    · subst hc
      cases code with
      | none =>
        have hm' := (hgov.of_starts (Discipline.sources_setsNumbers _) (.call he hf)).1
        rcases Machine.find?_cases hm' hf with (hv | ⟨f, hf, -⟩) | ⟨k', hk', hname⟩
        · cases hv
        · cases hf
        · cases hk'
          exact .inr (.inl (by simp [isBorrowing, ← hname]))
      | some c =>
        right; right
        rw [rank_choose (c := c) (by simp)]
        simp only [rank, Expr.node.sizeOf_spec, Option.some.sizeOf_spec]
        omega
    · right; right
      rw [rank_call_of_ne hc]
      simp only [rank, Expr.node.sizeOf_spec]
      omega
  | @branch args e m hc =>
    right; right
    obtain ⟨c, hlast, he⟩ := branch_of_chosenBranch hc
    rw [rank_choose hlast]
    obtain ⟨site, body⟩ := c
    have hle : sizeOf e ≤ sizeOf body := sizeOf_le_of_mem_items he
    simp only [rank, Sited.mk.sizeOf_spec]
    omega
  | count => exact absurd rfl ha.not_loop.1
  | loop => exact absurd rfl ha.not_loop.2
  | pass | nextPass | condition | round | nextRound => cases hnot
  | enter => exact .inl rfl
  | body =>
    right; right
    simp only [rank]
    omega

/-- A job without `FOR` and `WHILE` ends where borrowed code is bounded. -/
theorem LoopFree.terminates (n : Nat) {a : Activation} (ha : a.LoopFree)
    (hn : ∀ stack, UnderWay a stack → borrowed stack ≤ n) : a.Terminates := by
  refine terminates_iff_starts.mpr fun b hs => ?_
  have hb : ∀ stack, UnderWay b stack → borrowed stack + borrowed [a] ≤ n := by
    intro stack h
    simpa using hn _ (.of_starts hs h)
  by_cases hborrow : a.isBorrowing = true
  · have hone : borrowed [a] = 1 := by simp [borrowed, hborrow]
    have hpos : borrowed [a] ≤ n := hn _ .start
    have hless : ∀ stack, UnderWay b stack → borrowed stack ≤ n - 1 := by
      intro stack h
      have := hb stack h
      omega
    exact LoopFree.terminates (n - 1) (ha.of_starts hs) hless
  · have hsame : ∀ stack, UnderWay b stack → borrowed stack ≤ n :=
      fun stack h => Nat.le_trans (Nat.le_add_right _ _) (hb stack h)
    exact LoopFree.terminates n (ha.of_starts hs) hsame
-- Borrowed code uses up the bound, bodies of functions the limit on calls, all else its own size.
termination_by (n, a.machine.maxDepth - a.machine.depth, a.rank)
decreasing_by
  · exact Prod.Lex.left _ _ (by omega)
  · obtain ⟨hdepth, hlimit, hlt⟩ := hs.depth
    refine Prod.Lex.right _ ?_
    rw [hdepth, hlimit]
    rcases ha.rank_lt hs with hbody | hb | hrank
    · have hbelow := hlt hbody
      rw [if_pos hbody]
      exact Prod.Lex.left _ _ (by omega)
    · exact absurd hb hborrow
    · split
      · have hbelow := hlt ‹_›
        exact Prod.Lex.left _ _ (by omega)
      · exact Prod.Lex.right _ hrank

private theorem borrowed_le {n : Nat} {r : Outcome Empty a.job.Result × Machine Empty}
    (hr : a.job.run n a.machine = some r) {stack : List Activation} (h : UnderWay a stack) :
    borrowed stack ≤ n + 1 := by
  cases stack with
  | nil => exact Nat.zero_le _
  | cons b rest =>
    obtain ⟨n', -, -, hn'⟩ := h.run_of_run hr
    have hexpr : borrowed rest ≤ rest.countP isExpr := by
      refine List.countP_mono_left fun c _ hc => ?_
      unfold isBorrowing at hc
      unfold isExpr
      split at hc
      · simp [*]
      · cases hc
    have hcons : borrowed (b :: rest) ≤ borrowed rest + 1 := by
      unfold borrowed
      rw [List.countP_cons]
      split <;> omega
    omega

/-- A script whose `IF`s all have their own code borrows none. -/
theorem borrowed_eq_zero (ha : (Discipline.sources ownsBranches).Governs a)
    {stack : List Activation} (h : UnderWay a stack) : borrowed stack = 0 := by
  refine List.countP_eq_zero.mpr fun b hb hborrow => ?_
  obtain ⟨-, hg⟩ := ha.of_underWay (Discipline.sources_setsNumbers _) h b hb
  obtain ⟨job, m⟩ := b
  unfold isBorrowing at hborrow
  split at hborrow
  · rename_i k arg line context hjob
    cases hjob
    have htest := (Expr.every_node hg).1
    simp_all [ownsBranches]
  · cases hborrow

end Activation

theorem Machine.run_ends_iff {m : Machine Empty} {script : List Expr} :
    (∃ fuel r, m.run fuel script = some r) ↔ Activation.Terminates ⟨.items 1 script, m⟩ := by
  constructor
  · rintro ⟨n, r, h⟩
    obtain ⟨r₁, hs, -⟩ := Option.map_eq_some_iff.mp h
    obtain ⟨r₂, hitems, -⟩ := Option.map_eq_some_iff.mp hs
    exact ⟨n, r₂, hitems⟩
  · rintro ⟨n, r, h⟩
    have hs : evaluateScript n (pure ()) script m = some _ := Option.map_eq_some_iff.mpr ⟨r, h, rfl⟩
    exact ⟨n, _, Option.map_eq_some_iff.mpr ⟨_, hs, rfl⟩⟩

open Activation

/-- A run of a script without `FOR` and `WHILE` ends exactly when the `IF`s without code of their
own that are under way at one time are bounded in number, and so it does when every `IF` has its own
code. A call of a function beyond the limit fails. -/
theorem ends_iff_borrowing_bounded {script : List Expr} {m : Machine Empty}
    (hm : m.stack.frames = []) (hloop : ∀ e ∈ script, e.every isLoopFree = true) :
    ((∃ fuel r, m.run fuel script = some r) ↔
      ∃ n, ∀ stack, UnderWay ⟨.items 1 script, m⟩ stack → borrowed stack ≤ n) ∧
    ((∀ e ∈ script, e.every ownsBranches = true) → ∃ fuel r, m.run fuel script = some r) ∧
    ∀ (f : Function) (args : List (Value Empty)) (m' : Machine Empty) (rest : List Activation),
      UnderWay ⟨.items 1 script, m⟩ (⟨.call (.func f) args, m'⟩ :: rest) →
      m.maxDepth ≤ m.depth + bodies rest →
      Ends ⟨.call (.func f) args, m'⟩ (.failed (.depthExceeded m.maxDepth)) m' := by
  have hfree : LoopFree ⟨.items 1 script, m⟩ := ⟨Discipline.sources_governs hm hloop, rfl⟩
  rw [Machine.run_ends_iff]
  refine ⟨⟨?_, ?_⟩, ?_, ?_⟩
  · rintro ⟨n, r, hr⟩
    exact ⟨n + 1, fun _ h => borrowed_le hr h⟩
  · rintro ⟨n, hn⟩
    exact hfree.terminates n hn
  · intro howns
    have hgov := Discipline.sources_governs hm howns
    exact hfree.terminates 0 fun _ h => Nat.le_of_eq (borrowed_eq_zero hgov h)
  · intro f args m' rest h hlimit
    exact ((h.fails_iff rfl).mpr hlimit).1

/-- A function that calls itself in a branch of `IF`: every `IF` has its own code, so a run ends. -/
theorem ends_of_own_branches_when_recursing :
    let again : Expr := .node "f" (.lit .null) none none
    let body : Expr :=
      .node "IF" (.lit (.bool true)) (some ⟨{ document := 0 }, .script [again]⟩) none
    let script : List Expr :=
      [.node "FUNCTION" (.lit (.str "f")) (some ⟨{ document := 0 }, .script [body]⟩) none, again]
    (∀ e ∈ script, e.every isLoopFree = true) ∧ (∀ e ∈ script, e.every ownsBranches = true) ∧
      (∃ fuel r, Machine.run ({} : Machine Empty) fuel script = some r) ∧
      ∃ n, ∀ stack, UnderWay ⟨.items 1 script, {}⟩ stack → borrowed stack ≤ n := by
  intro again body script
  have hloop : ∀ e ∈ script, e.every isLoopFree = true := by decide
  have howns : ∀ e ∈ script, e.every ownsBranches = true := by decide
  obtain ⟨hiff, hends, -⟩ := ends_iff_borrowing_bounded (m := {}) rfl hloop
  exact ⟨hloop, howns, hends howns, hiff.mp (hends howns)⟩

/-- An `IF` that takes its code from a name, where that code is the `IF` itself. There is no loop
and no function, and whatever the limit on calls, no run ends. -/
theorem borrowed_branch_never_ends :
    let borrow : Json := .obj [("IF", .arr [.bool true, .obj [("c", .null)]])]
    ∃ script, Expr.loadTop 0 (.arr [.obj [("LET", .str "c"), ("script", .arr [borrow])], borrow]) =
      .ok script ∧ (∀ e ∈ script, e.every isLoopFree = true) ∧
      ∀ limit fuel, Machine.run ({ maxDepth := limit } : Machine Empty) fuel script = none := by
  intro borrow
  let e : Expr :=
    .node "IF" (.script [.lit (.bool true), .node "c" (.lit .null) none none]) none none
  let code : Code := ⟨{ document := 0, path := [.code, .item 0] }, .script [e]⟩
  let script : List Expr := [.node "LET" (.lit (.str "c")) (some code) none, e]
  refine ⟨script, rfl, by decide, fun limit fuel => ?_⟩
  let m : Machine Empty := Machine.bind { maxDepth := limit } "c" (.code code)
  have hround : ∀ line, UnderWay ⟨.expr e line, m⟩
      [⟨.expr e none, m⟩, ⟨.call (.builtin .choose) [.bool true, .code code], m⟩,
        ⟨.expr e line, m⟩] :=
    fun _ => (UnderWay.start.next (.call (v := .list [.bool true, .code code]) ⟨4, rfl⟩ rfl)).next
      (.branch rfl)
  have hfirst : UnderWay ⟨.items 1 script, { maxDepth := limit }⟩
      [⟨.expr e (some 2), m⟩, ⟨.items 2 [e], m⟩, ⟨.items 1 script, { maxDepth := limit }⟩] :=
    (UnderWay.start.next (.nextItem ⟨4, rfl⟩)).next .item
  refine Option.eq_none_iff_forall_ne_some.mpr fun r hr => ?_
  have hends := hfirst.terminates (Machine.run_ends_iff.mp ⟨fuel, r, hr⟩)
  exact (hround none).not_terminates Nat.one_pos ((hround (some 2)).terminates hends)

end KeywordScript
