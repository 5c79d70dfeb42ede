import StaticTyping.Source.Program
import Mathlib.Data.Multiset.Bind
import Mathlib.Data.Finset.Card
import Mathlib.Data.Finset.Range
import Mathlib.Logic.Relation

/-! Which nodes of a program refer to which. Where nothing below a node leads back to itself, going
down from the node ends within the depth of the arena, and what it gathers on the way is a definite
multiset. -/

namespace StaticTyping

open Nat

def ExprKind.children : ExprKind → List ExprId
  | .name _ | .literal _ | .hole => []
  | .unary _ operand => [operand]
  | .binary _ left right => [left, right]
  | .assign _ target value => [target, value]
  | .call callee args => callee :: args.map (·.value)
  | .member object _ => [object]
  | .index object position => [object, position]
  | .record _ fields => fields.map (·.value)
  | .array elements | .tuple elements => elements
  | .map entries => entries.flatMap fun entry => [entry.key, entry.value]
  | .cast value _ => [value]
  | .group inner => [inner]

lemma ExprId.index_injective : Function.Injective ExprId.index := by
  rintro ⟨i⟩ ⟨j⟩ rfl
  rfl

lemma StmtId.index_injective : Function.Injective StmtId.index := by
  rintro ⟨i⟩ ⟨j⟩ rfl
  rfl

/-- The expressions that a statement itself holds. Those of a record stand in its methods. -/
def StmtKind.exprs : StmtKind → List ExprId
  | .bind decl => decl.value.toList
  | .function decl => decl.params.filterMap (·.default)
  | .branch condition _ _ | .whileLoop condition _ => [condition]
  | .forLoop _ iterable _ => [iterable]
  | .ret value => value.toList
  | .cases subject _ => [subject]
  | .expr value => [value]
  | .record _ _ | .enum _ | .typeAlias _ | .breakLoop | .continueLoop | .block _ => []

/-- The statements that a statement refers to, in blocks or as methods. -/
def StmtKind.children : StmtKind → List StmtId
  | .function decl => decl.body.statements
  | .record _ decl => decl.methods
  | .branch _ consequent alternative =>
    consequent.statements ++ alternative.toList.flatMap (·.statements)
  | .whileLoop _ body | .forLoop _ _ body | .block body => body.statements
  | .cases _ arms => arms.flatMap (·.body.statements)
  | .bind _ | .enum _ | .typeAlias _ | .ret _ | .breakLoop | .continueLoop | .expr _ => []

/-- If what stands for an index past the arena holds nothing, what is held is held by a node of it.
-/
lemma lt_size_of_mem_kids {β γ : Type} {nodes : Array γ} {other : γ} (kids : γ → List β) {i : Nat}
    {x : β} (hother : kids other = []) (h : x ∈ kids ((nodes[i]?).getD other)) :
    ∃ hi : i < nodes.size, x ∈ kids nodes[i] := by
  by_cases hi : i < nodes.size
  · exact ⟨hi, by simpa [hi] using h⟩
  · have hnone : nodes[i]? = none := Array.getElem?_eq_none (Nat.le_of_not_lt hi)
    simp [hnone, hother] at h

variable {p : Program} {size : Nat} {id : ExprId}

namespace Program

def exprChildren (p : Program) (id : ExprId) : List ExprId := (p.expr id).kind.children

def stmtChildren (p : Program) (id : StmtId) : List StmtId := (p.stmt id).kind.children

def ExprEdge (p : Program) (a b : ExprId) : Prop := b ∈ p.exprChildren a

def StmtEdge (p : Program) (a b : StmtId) : Prop := b ∈ p.stmtChildren a

/-- No expression and no statement leads back to itself. -/
structure Acyclic (p : Program) : Prop where
  exprs : ∀ id, ¬ Relation.TransGen p.ExprEdge id id
  stmts : ∀ id, ¬ Relation.TransGen p.StmtEdge id id

/-- No expression that this one leads to, itself included, leads back to itself. -/
def AcyclicExpr (p : Program) (id : ExprId) : Prop :=
  ∀ a, Relation.ReflTransGen p.ExprEdge id a → ¬ Relation.TransGen p.ExprEdge a a

/-- No statement that this one leads to and no expression in them leads back to itself. -/
def AcyclicStmt (p : Program) (id : StmtId) : Prop :=
  ∀ a, Relation.ReflTransGen p.StmtEdge id a →
    ¬ Relation.TransGen p.StmtEdge a a ∧ ∀ e ∈ (p.stmt a).kind.exprs, p.AcyclicExpr e

lemma Acyclic.expr (h : p.Acyclic) (id : ExprId) : p.AcyclicExpr id :=
  fun a _ => h.exprs a

lemma AcyclicExpr.of_children (h : ∀ c ∈ p.exprChildren id, p.AcyclicExpr c) :
    p.AcyclicExpr id := by
  intro a hreach hcycle
  obtain rfl | ⟨c, hc, hca⟩ := Relation.ReflTransGen.cases_head hreach
  · -- A cycle through the expression passes through one of its children.
    obtain ⟨c, hc, hback⟩ := Relation.TransGen.head'_iff.mp hcycle
    exact h c hc c .refl (.tail' hback hc)
  · exact h c hc a hca hcycle

lemma AcyclicExpr.of_pair {a b : ExprId} (h : p.exprChildren id = [a, b])
    (ha : p.AcyclicExpr a) (hb : p.AcyclicExpr b) : p.AcyclicExpr id :=
  .of_children (by simp [h, ha, hb])

lemma Acyclic.stmt (h : p.Acyclic) (id : StmtId) : p.AcyclicStmt id :=
  fun a _ => ⟨h.stmts a, fun e _ => h.expr e⟩

def isFunction (p : Program) (id : StmtId) : Bool :=
  match (p.stmt id).kind with
  | .function _ => true
  | _ => false

/-- The methods of a record, as far as they are functions. -/
def methodsOf (p : Program) (id : StmtId) : List StmtId :=
  match (p.stmt id).kind with
  | .record _ decl => decl.methods.filter p.isFunction
  | _ => []

lemma mem_stmtChildren_of_mem_methodsOf {owner m : StmtId} (h : m ∈ p.methodsOf owner) :
    m ∈ p.stmtChildren owner := by
  unfold methodsOf at h
  unfold stmtChildren
  split at h
  · rename_i kind decl hkind
    rw [hkind]
    exact List.mem_of_mem_filter h
  · cases h

/-- The statements inside a statement that are checked with it: of a record its methods, as far as
they are functions. -/
def stmtParts (p : Program) (id : StmtId) : List StmtId :=
  match (p.stmt id).kind with
  | .record _ decl => decl.methods.filter p.isFunction
  | kind => kind.children

lemma stmtParts_sublist (p : Program) (id : StmtId) :
    (p.stmtParts id).Sublist (p.stmtChildren id) := by
  unfold stmtParts stmtChildren
  split
  · rename_i kind decl hkind
    rw [hkind]
    exact List.filter_sublist
  · exact .refl _

lemma index_lt_of_mem_exprChildren {a b : ExprId} (h : b ∈ p.exprChildren a) :
    a.index < p.expressions.size :=
  (lt_size_of_mem_kids (fun node : Expr => node.kind.children) rfl h).fst

lemma index_lt_of_mem_stmtChildren {a b : StmtId} (h : b ∈ p.stmtChildren a) :
    a.index < p.statements.size :=
  (lt_size_of_mem_kids (fun node : Stmt => node.kind.children) rfl h).fst

end Program

section Height

variable {α : Type} {edge : α → α → Prop} {height : α → Nat}

/-- A graph without cycles on finitely many numbered nodes has heights. The height of a node counts
the numbered nodes that it leads to. -/
lemma exists_height (index : α → Nat) (hindex : Function.Injective index)
    (hsize : ∀ a b, edge a b → index a < size) (hacyclic : ∀ a, ¬ Relation.TransGen edge a a) :
    ∃ height : α → Nat, (∀ a, height a ≤ size) ∧ ∀ a b, edge a b → height b < height a := by
  classical
  let reached (a : α) : Finset Nat :=
    (Finset.range size).filter fun i => ∃ b, index b = i ∧ Relation.ReflTransGen edge a b
  refine ⟨fun a => (reached a).card, fun a => ?_, fun a b hab => Finset.card_lt_card ?_⟩
  · have hcard := Finset.card_filter_le (Finset.range size)
      fun i => ∃ b, index b = i ∧ Relation.ReflTransGen edge a b
    simpa [reached] using hcard
  · have hsubset : reached b ⊆ reached a := by
      intro i hi
      obtain ⟨hlt, c, hc, hbc⟩ := Finset.mem_filter.mp hi
      exact Finset.mem_filter.mpr ⟨hlt, c, hc, .head hab hbc⟩
    have hself : index a ∈ reached a :=
      Finset.mem_filter.mpr ⟨Finset.mem_range.mpr (hsize a b hab), a, rfl, .refl⟩
    -- If `b` led back to `a`, there would be a cycle.
    have hback : index a ∉ reached b := by
      intro hmem
      obtain ⟨-, c, hc, hbc⟩ := Finset.mem_filter.mp hmem
      rw [hindex hc] at hbc
      exact hacyclic a (.head' hab hbc)
    exact ⟨hsubset, fun hsup => hback (hsup hself)⟩

lemma acyclic_of_height (h : ∀ a b, edge a b → height b < height a) (a : α) :
    ¬ Relation.TransGen edge a a := by
  intro hcycle
  have hlt : Relation.TransGen (· > ·) (height a) (height a) := hcycle.lift height h
  rw [Relation.transGen_eq_self] at hlt
  exact hlt.false

/-- Where each node leads back to earlier ones or past the numbered nodes, nothing leads to itself.
-/
lemma acyclic_of_descending (index : α → Nat) (hsize : ∀ a b, edge a b → index a < size)
    (hdown : ∀ a b, edge a b → index b < index a ∨ size ≤ index b) (a : α) :
    ¬ Relation.TransGen edge a a := by
  let height (a : α) : Nat := if index a < size then index a + 1 else 0
  have hheight : ∀ a b, edge a b → height b < height a := by
    intro a b hab
    have hback := hdown a b hab
    simp only [height, if_pos (hsize a b hab)]
    split <;> omega
  exact acyclic_of_height hheight a

end Height

section Descent

variable {α β : Type} {children parts : α → List α} {P : α → Prop} {own : α → Multiset β}

/-- Going down from a node ends within a depth, and each node met on the way is as `P` says. -/
def EndsWithin (children : α → List α) (P : α → Prop) : Nat → α → Prop
  | 0, _ => False
  | depth + 1, a => P a ∧ ∀ b ∈ children a, EndsWithin children P depth b

namespace EndsWithin

variable {m n : Nat} {a b : α}

lemma mono (h : EndsWithin children P m a) (hmn : m ≤ n) : EndsWithin children P n a := by
  induction m generalizing n a with
  | zero => exact h.elim
  | succ m ih =>
    obtain ⟨n, rfl⟩ := Nat.exists_eq_add_of_le' (Nat.le_trans (Nat.le_add_left 1 m) hmn)
    exact ⟨h.1, fun b hb => ih (h.2 b hb) (Nat.le_of_succ_le_succ hmn)⟩

lemma here (h : EndsWithin children P n a) : P a := by
  cases n with
  | zero => exact h.elim
  | succ n => exact h.1

lemma child (h : EndsWithin children P n a) (hb : b ∈ children a) : EndsWithin children P n b := by
  cases n with
  | zero => exact h.elim
  | succ n => exact (h.2 b hb).mono (le_succ n)

lemma below (h : EndsWithin children P n a)
    (hab : Relation.ReflTransGen (fun a b => b ∈ children a) a b) : EndsWithin children P n b := by
  induction hab with
  | refl => exact h
  | tail _ hbc ih => exact ih.child hbc

lemma subset (hsub : ∀ a, parts a ⊆ children a) (h : EndsWithin children P n a) :
    EndsWithin parts P n a := by
  induction n generalizing a with
  | zero => exact h
  | succ n ih => exact ⟨h.1, fun b hb => ih (h.2 b (hsub a hb))⟩

end EndsWithin

lemma endsWithin_of_acyclic (index : α → Nat) (hindex : Function.Injective index)
    (hsize : ∀ a b, b ∈ children a → index a < size) {root : α}
    (h : ∀ a, Relation.ReflTransGen (fun a b => b ∈ children a) root a →
      ¬ Relation.TransGen (fun a b => b ∈ children a) a a ∧ P a) :
    EndsWithin children P (size + 1) root := by
  -- Only edges below the root count. Elsewhere there may be cycles.
  let edge (a b : α) : Prop :=
    Relation.ReflTransGen (fun a b => b ∈ children a) root a ∧ b ∈ children a
  have hacyclic : ∀ a, ¬ Relation.TransGen edge a a := by
    intro a hcycle
    obtain ⟨b, hab, -⟩ := Relation.TransGen.head'_iff.mp hcycle
    exact (h a hab.1).1 (hcycle.lift id fun _ _ hedge => hedge.2)
  obtain ⟨height, hle, hlt⟩ := exists_height index hindex (fun a b hab => hsize a b hab.2) hacyclic
  have hends : ∀ n a, Relation.ReflTransGen (fun a b => b ∈ children a) root a → height a < n →
      EndsWithin children P n a := by
    intro n
    induction n with
    | zero => exact fun a _ hn => absurd hn (not_lt_zero _)
    | succ n ih =>
      intro a hreach hn
      refine ⟨(h a hreach).2, fun b hb => ih b (hreach.tail hb) ?_⟩
      exact (hlt a b ⟨hreach, hb⟩).trans_le (le_of_lt_succ hn)
  exact hends _ root .refl (lt_succ_of_le (hle root))

lemma sum_map_eq_bind (xs : List α) (f : α → Multiset β) :
    (xs.map f).sum = (xs : Multiset α).bind f := by
  simp [Multiset.bind, Multiset.join]

lemma sum_map_singleton (xs : List α) : (xs.map fun a => ({a} : Multiset α)).sum = xs := by
  rw [sum_map_eq_bind, Multiset.bind_singleton, Multiset.map_id']

lemma mem_sum_map {xs : List α} {f : α → Multiset β} {b : β} :
    b ∈ (xs.map f).sum ↔ ∃ a ∈ xs, b ∈ f a := by
  simp [sum_map_eq_bind]

/-- What the nodes met on the way down to a depth hold, once for each way that leads to a node. -/
def gatherWithin (own : α → Multiset β) (children : α → List α) : Nat → α → Multiset β
  | 0, _ => 0
  | depth + 1, a => own a + ((children a).map (gatherWithin own children depth)).sum

lemma gatherWithin_stable {m n : Nat} {a : α} (h : EndsWithin children P m a) (hmn : m ≤ n) :
    gatherWithin own children n a = gatherWithin own children m a := by
  induction m generalizing n a with
  | zero => exact h.elim
  | succ m ih =>
    obtain ⟨n, rfl⟩ := Nat.exists_eq_add_of_le' (Nat.le_trans (Nat.le_add_left 1 m) hmn)
    have hparts : (children a).map (gatherWithin own children n) =
        (children a).map (gatherWithin own children m) :=
      List.map_congr_left fun b hb => ih (h.2 b hb) (le_of_succ_le_succ hmn)
    simp only [gatherWithin, hparts]

lemma gatherWithin_eq {depth : Nat} {a : α} (h : EndsWithin children P depth a) :
    gatherWithin own children depth a =
      own a + ((children a).map (gatherWithin own children depth)).sum := by
  rw [← gatherWithin_stable h (le_succ depth)]
  rfl

end Descent

namespace Program

variable {p : Program}

abbrev ExprEnds (p : Program) (id : ExprId) : Prop :=
  EndsWithin p.exprChildren (fun _ => True) p.exprDepth id

abbrev StmtEndsWithin (p : Program) (depth : Nat) (id : StmtId) : Prop :=
  EndsWithin p.stmtChildren (fun a => ∀ e ∈ (p.stmt a).kind.exprs, p.ExprEnds e) depth id

abbrev StmtEnds (p : Program) (id : StmtId) : Prop := p.StmtEndsWithin p.stmtDepth id

lemma AcyclicExpr.ends (h : p.AcyclicExpr id) : p.ExprEnds id := by
  refine endsWithin_of_acyclic ExprId.index ExprId.index_injective
    (fun _ _ => index_lt_of_mem_exprChildren) fun a hreach => ?_
  exact ⟨h a hreach, trivial⟩

lemma AcyclicStmt.ends {id : StmtId} (h : p.AcyclicStmt id) : p.StmtEnds id := by
  refine endsWithin_of_acyclic StmtId.index StmtId.index_injective
    (fun _ _ => index_lt_of_mem_stmtChildren) fun a hreach => ?_
  exact ⟨(h a hreach).1, fun e he => ((h a hreach).2 e he).ends⟩

/-- An expression and all expressions below it, each once for each way that leads to it. -/
def exprTree (p : Program) (id : ExprId) : Multiset ExprId :=
  gatherWithin (fun a => {a}) p.exprChildren p.exprDepth id

/-- The expressions in the parts of a statement at any depth, with all expressions below them. -/
def stmtTree (p : Program) (id : StmtId) : Multiset ExprId :=
  gatherWithin (fun a => ((p.stmt a).kind.exprs.map p.exprTree).sum) p.stmtParts p.stmtDepth id

lemma ExprEnds.exprTree_eq (h : p.ExprEnds id) :
    p.exprTree id = {id} + ((p.exprChildren id).map p.exprTree).sum :=
  gatherWithin_eq h

lemma StmtEnds.parts {id : StmtId} (h : p.StmtEnds id) :
    EndsWithin p.stmtParts (fun a => ∀ e ∈ (p.stmt a).kind.exprs, p.ExprEnds e) p.stmtDepth id :=
  EndsWithin.subset (fun a => (p.stmtParts_sublist a).subset) h

lemma StmtEnds.stmtTree_eq {id : StmtId} (h : p.StmtEnds id) :
    p.stmtTree id = ((p.stmt id).kind.exprs.map p.exprTree).sum +
      ((p.stmtParts id).map p.stmtTree).sum :=
  gatherWithin_eq (StmtEnds.parts h)

lemma exprs_acyclic_of_descending (h : ∀ i < p.expressions.size, ∀ c ∈ p.exprChildren ⟨i⟩,
      c.index < i ∨ p.expressions.size ≤ c.index) (id : ExprId) :
    ¬ Relation.TransGen p.ExprEdge id id := by
  refine acyclic_of_descending ExprId.index (fun _ _ => index_lt_of_mem_exprChildren) ?_ id
  exact fun a b hab => h a.index (index_lt_of_mem_exprChildren hab) b hab

lemma acyclic_of_indices (hexprs : ∀ i < p.expressions.size, ∀ c ∈ p.exprChildren ⟨i⟩,
      c.index < i ∨ p.expressions.size ≤ c.index)
    (hstmts : ∀ i < p.statements.size, ∀ c ∈ p.stmtChildren ⟨i⟩,
      c.index < i ∨ p.statements.size ≤ c.index) : p.Acyclic where
  exprs := exprs_acyclic_of_descending hexprs
  stmts := by
    refine acyclic_of_descending StmtId.index (fun _ _ => index_lt_of_mem_stmtChildren) ?_
    exact fun a b hab => hstmts a.index (index_lt_of_mem_stmtChildren hab) b hab

/-- A class with a method that takes a default, and a match on a call. The callee of the call and one
branch of the method lie past the arenas. -/
def sample : Program where
  expressions := #[⟨{}, .name "by"⟩, ⟨{}, .literal .null⟩, ⟨{}, .binary .equal ⟨0⟩ ⟨1⟩⟩,
    ⟨{}, .name "by"⟩, ⟨{}, .literal (.int "1")⟩, ⟨{}, .call ⟨9⟩ []⟩]
  statements := #[⟨{}, .ret (some ⟨3⟩)⟩,
    ⟨{}, .branch ⟨2⟩ { statements := [⟨0⟩] } (some { statements := [⟨9⟩] })⟩,
    ⟨{}, .function {
      name := ⟨"step", {}⟩, params := [{ name := "by", default := some ⟨4⟩ }]
      body := { statements := [⟨1⟩] } }⟩,
    ⟨{}, .record .classType { name := ⟨"Counter", {}⟩, methods := [⟨2⟩] }⟩,
    ⟨{}, .cases ⟨5⟩ [{ pattern := { kind := .wildcard }, body := {} }]⟩]
  items := [⟨3⟩, ⟨4⟩]

lemma sample_acyclic : sample.Acyclic := acyclic_of_indices (by decide) (by decide)

end Program

end StaticTyping
