import StaticTyping.Proofs.Visited.Run

/-! Which expressions a check records. They are those that can be reached from the items of the
program, and each is recorded once for each way that leads to it. If nothing is referred to twice,
there is one way at most. -/

namespace StaticTyping

open List Program Array

section Descent

variable {α β : Type} {children parts : α → List α} {P : α → Prop} {own : α → Multiset β} {a : α}
  {n : Nat} {f : α → List β}

lemma mem_gatherWithin {x : β} (h : EndsWithin children P n a) : x ∈ gatherWithin own children n a ↔
      ∃ b, Relation.ReflTransGen (fun a b => b ∈ children a) a b ∧ x ∈ own b := by
  induction n generalizing a with
  | zero => exact h.elim
  | succ n ih =>
    rw [gatherWithin, Multiset.mem_add, mem_sum_map]
    constructor
    · rintro (hx | ⟨c, hc, hx⟩)
      · exact ⟨a, .refl, hx⟩
      · obtain ⟨b, hcb, hx⟩ := (ih (h.2 c hc)).mp hx
        exact ⟨b, .head hc hcb, hx⟩
    · rintro ⟨b, hab, hx⟩
      -- A way down starts at the node itself or at one of its children.
      rcases hab.cases_head with rfl | ⟨c, hc, hcb⟩
      · exact .inl hx
      · exact .inr ⟨c, hc, (ih (h.2 c hc)).mpr ⟨b, hcb, hx⟩⟩

lemma gatherWithin_eq_bind (n : Nat) (a : α) :
    gatherWithin own children n a = (gatherWithin (fun a => {a}) children n a).bind own := by
  induction n generalizing a with
  | zero => rfl
  | succ n ih =>
    simp only [gatherWithin, sum_map_eq_bind, Multiset.add_bind, Multiset.singleton_bind,
      Multiset.bind_assoc]
    rw [Multiset.bind_congr fun c _ => ih c]

/-- If from each root the nodes met are the root and the children of nodes met, then so it is from
all roots together. -/
lemma forest_eq {R : Multiset α} {T : α → Multiset α}
    (h : ∀ a ∈ R, T a = {a} + (T a).bind fun b => (children b : Multiset α)) :
    R.bind T = R + (R.bind T).bind fun b => (children b : Multiset α) := by
  rw [Multiset.bind_assoc]
  nth_rewrite 1 [Multiset.bind_congr h]
  rw [Multiset.bind_add, Multiset.bind_singleton, Multiset.map_id']

lemma tree_eq (h : EndsWithin children P n a) : gatherWithin (fun a => {a}) children n a =
      {a} + (gatherWithin (fun a => {a}) children n a).bind fun b => (children b : Multiset α) := by
  induction n generalizing a with
  | zero => exact h.elim
  | succ n ih =>
    simp only [gatherWithin, sum_map_eq_bind, Multiset.add_bind, Multiset.singleton_bind]
    rw [← forest_eq fun c hc => ih (h.2 c (Multiset.mem_coe.mp hc))]

/-- Each node has its children to itself. -/
structure Apart (children : α → List β) : Prop where
  nodup : ∀ a, (children a).Nodup
  parent : ∀ a b x, x ∈ children a → x ∈ children b → a = b

lemma Apart.sublist {children parts : α → List β} (h : Apart children)
    (hsub : ∀ a, (parts a).Sublist (children a)) : Apart parts where
  nodup a := (h.nodup a).sublist (hsub a)
  parent a b x ha hb := h.parent a b x ((hsub a).subset ha) ((hsub b).subset hb)

lemma Apart.nodup_bind (h : Apart f) {V : Multiset α} (hV : V.Nodup) :
    (V.bind fun a => (f a : Multiset β)).Nodup := by
  refine Multiset.nodup_bind.mpr ⟨fun a _ => Multiset.coe_nodup.mpr (h.nodup a), ?_⟩
  refine hV.pairwise fun a _ b _ hab => Multiset.disjoint_left.mpr fun {x} ha hb => hab ?_
  exact h.parent a b x (Multiset.mem_coe.mp ha) (Multiset.mem_coe.mp hb)

lemma Apart.count_bind [DecidableEq α] [DecidableEq β] (h : Apart f) {x : β}
    (hx : x ∈ f a) (V : Multiset α) : (V.bind fun a => (f a : Multiset β)).count x = V.count a := by
  have hcount (b : α) : (f b : Multiset β).count x = ({b} : Multiset α).count a := by
    by_cases hab : a = b
    · subst hab
      rw [Multiset.count_singleton_self]
      exact Multiset.count_eq_one_of_mem (Multiset.coe_nodup.mpr (h.nodup a)) hx
    · rw [Multiset.count_singleton, if_neg hab]
      exact Multiset.count_eq_zero.mpr fun hb => hab (h.parent a b x hx hb)
  rw [Multiset.count_bind]
  simp only [hcount]
  rw [← Multiset.count_bind, Multiset.bind_singleton, Multiset.map_id']

/-- Where each node has one parent at most and roots have none, no node is met twice. The induction
goes up from a node to its parent, which is higher. -/
lemma nodup_of_forest [DecidableEq α] {R V : Multiset α} {height : α → Nat} {size : Nat}
    (hV : V = R + V.bind fun a => (children a : Multiset α)) (hR : R.Nodup) (h : Apart children)
    (hroots : ∀ a, ∀ x ∈ children a, x ∉ R) (hle : ∀ a, height a ≤ size)
    (hlt : ∀ a b, b ∈ children a → height b < height a) : V.Nodup := by
  have hcount : ∀ n x, size < height x + n → V.count x ≤ 1 := by
    intro n
    induction n with
    | zero => exact fun x hx => absurd hx (Nat.not_lt.mpr (hle x))
    | succ n ih =>
      intro x hx
      rw [hV, Multiset.count_add]
      -- A child is met as often as its parent and is no root. Other nodes are roots or not met.
      by_cases hparent : ∃ a, x ∈ children a
      · obtain ⟨a, ha⟩ := hparent
        have hup := hlt a x ha
        rw [h.count_bind ha, Multiset.count_eq_zero.mpr (hroots a x ha), zero_add]
        exact ih a (by omega)
      · have hnone : x ∉ V.bind fun a => (children a : Multiset α) := by
          intro hmem
          obtain ⟨a, -, ha⟩ := Multiset.mem_bind.mp hmem
          exact hparent ⟨a, ha⟩
        rw [Multiset.count_eq_zero.mpr hnone]
        exact Multiset.nodup_iff_count_le_one.mp hR x
  refine Multiset.nodup_iff_count_le_one.mpr fun x => hcount (size + 1) x ?_
  omega

section Arena

variable {γ : Type} {nodes : Array γ} {other : γ} {kids : γ → List β}

lemma mem_flatMap_kids (kids : γ → List β) {i : Nat} {x : β} (hother : kids other = [])
    (h : x ∈ kids ((nodes[i]?).getD other)) : x ∈ nodes.toList.flatMap kids := by
  obtain ⟨hi, hx⟩ := lt_size_of_mem_kids kids hother h
  exact mem_flatMap.mpr ⟨nodes[i], getElem_mem_toList hi, hx⟩

/-- If the parts of all nodes in an arena are different, each node has its parts to itself. -/
lemma apart_of_arena (h : (nodes.toList.flatMap kids).Nodup) (hother : kids other = [])
    {index : α → Nat} (hindex : Function.Injective index) :
    Apart fun a => kids ((nodes[index a]?).getD other) := by
  obtain ⟨hnodup, hpairwise⟩ := nodup_flatMap.mp h
  -- Nodes are told apart by their places in the arena.
  have hdisjoint : ∀ (i j : Nat) (x : β), x ∈ kids ((nodes[i]?).getD other) →
      x ∈ kids ((nodes[j]?).getD other) → ¬ i < j := by
    intro i j x hi hj hij
    obtain ⟨hi, hxi⟩ := lt_size_of_mem_kids kids hother hi
    obtain ⟨hj, hxj⟩ := lt_size_of_mem_kids kids hother hj
    exact List.pairwise_iff_getElem.mp hpairwise i j hi hj hij hxi hxj
  constructor
  · intro a
    by_cases ha : index a < nodes.size
    · simpa [ha] using hnodup _ (getElem_mem_toList ha)
    · have hnone : nodes[index a]? = none := getElem?_eq_none (Nat.le_of_not_lt ha)
      simp [hnone, hother]
  · intro a b x ha hb
    refine hindex (Nat.le_antisymm ?_ ?_)
    · exact Nat.le_of_not_lt (hdisjoint _ _ x hb ha)
    · exact Nat.le_of_not_lt (hdisjoint _ _ x ha hb)

end Arena

end Descent

namespace Program

variable {p : Program}

def StmtPart (p : Program) (a b : StmtId) : Prop := b ∈ p.stmtParts a

/-- An expression that can be reached from the items: through the statements inside statements to one
of the expressions that a statement holds, and from there through the children of expressions. -/
def Reachable (p : Program) (id : ExprId) : Prop :=
  ∃ item ∈ p.items, ∃ part, Relation.ReflTransGen p.StmtPart item part ∧
    ∃ held ∈ (p.stmt part).kind.exprs, Relation.ReflTransGen p.ExprEdge held id

/-- The expressions that anything in the arenas refers to, once for each reference. -/
def exprReferences (p : Program) : List ExprId :=
  p.expressions.toList.flatMap (·.kind.children) ++ p.statements.toList.flatMap (·.kind.exprs)

/-- The items, and the statements that anything in the arena refers to, once for each reference. -/
def stmtReferences (p : Program) : List StmtId :=
  p.items ++ p.statements.toList.flatMap (·.kind.children)

/-- No expression and no statement is referred to twice. -/
structure SingleUse (p : Program) : Prop where
  exprs : p.exprReferences.Nodup
  stmts : p.stmtReferences.Nodup

lemma ExprEnds.mem_exprTree {a x : ExprId} (h : p.ExprEnds a) :
    x ∈ p.exprTree a ↔ Relation.ReflTransGen p.ExprEdge a x := by
  refine (mem_gatherWithin h).trans ⟨?_, fun hax => ⟨x, hax, Multiset.mem_singleton_self x⟩⟩
  rintro ⟨b, hab, hx⟩
  rwa [Multiset.mem_singleton.mp hx]

lemma StmtEnds.mem_stmtTree {a : StmtId} {x : ExprId} (h : p.StmtEnds a) :
    x ∈ p.stmtTree a ↔ ∃ part, Relation.ReflTransGen p.StmtPart a part ∧
      ∃ held ∈ (p.stmt part).kind.exprs, Relation.ReflTransGen p.ExprEdge held x := by
  have hparts := StmtEnds.parts h
  refine (mem_gatherWithin hparts).trans (exists_congr fun part => and_congr_right fun hpart => ?_)
  rw [mem_sum_map]
  refine exists_congr fun held => and_congr_right fun hheld => ExprEnds.mem_exprTree ?_
  exact (hparts.below hpart).here held hheld

section Stmts

variable (h : p.stmtReferences.Nodup)
include h

lemma apart_stmtParts : Apart p.stmtParts :=
  (apart_of_arena (nodup_append.mp h).2.1 rfl StmtId.index_injective :
    Apart p.stmtChildren).sublist p.stmtParts_sublist

lemma not_mem_items {a x : StmtId} (hx : x ∈ p.stmtParts a) : x ∉ p.items := by
  intro hitem
  have hchild := (p.stmtParts_sublist a).subset hx
  have hreference := mem_flatMap_kids (fun node : Stmt => node.kind.children) rfl hchild
  exact (nodup_append.mp h).2.2 x hitem x hreference rfl

end Stmts

namespace SingleUse

lemma apart_exprChildren (h : p.SingleUse) : Apart p.exprChildren :=
  apart_of_arena (nodup_append.mp h.exprs).1 rfl ExprId.index_injective

lemma apart_exprs (h : p.SingleUse) : Apart fun id => (p.stmt id).kind.exprs :=
  apart_of_arena (nodup_append.mp h.exprs).2.1 rfl StmtId.index_injective

lemma not_mem_exprs (h : p.SingleUse) {a x : ExprId} {s : StmtId} (hx : x ∈ p.exprChildren a) :
    x ∉ (p.stmt s).kind.exprs := by
  intro hheld
  have hbelow := mem_flatMap_kids (fun node : Expr => node.kind.children) rfl hx
  have habove := mem_flatMap_kids (fun node : Stmt => node.kind.exprs) rfl hheld
  exact (nodup_append.mp h.exprs).2.2 x hbelow x habove rfl

end SingleUse

def visited (p : Program) : Multiset StmtId :=
  (p.items : Multiset StmtId).bind (gatherWithin (fun a => {a}) p.stmtParts p.stmtDepth)

lemma recorded_eq_bind (p : Program) : (p.items.map p.stmtTree).sum =
      (p.visited.bind fun id => ((p.stmt id).kind.exprs : Multiset ExprId)).bind p.exprTree := by
  rw [sum_map_eq_bind, visited, Multiset.bind_assoc, Multiset.bind_assoc]
  refine Multiset.bind_congr fun item _ => ?_
  rw [stmtTree, gatherWithin_eq_bind]
  exact Multiset.bind_congr fun id _ => sum_map_eq_bind _ _

lemma Acyclic.visited_eq (h : p.Acyclic) :
    p.visited = p.items + p.visited.bind fun id => (p.stmtParts id : Multiset StmtId) :=
  forest_eq fun item _ => tree_eq (StmtEnds.parts (h.stmt item).ends)

lemma Acyclic.recorded_eq (h : p.Acyclic) : (p.items.map p.stmtTree).sum =
      (p.visited.bind fun id => ((p.stmt id).kind.exprs : Multiset ExprId)) +
        (p.items.map p.stmtTree).sum.bind fun id => (p.exprChildren id : Multiset ExprId) := by
  rw [recorded_eq_bind]
  exact forest_eq fun id _ => tree_eq (h.expr id).ends

/-- In a program without cycles in which no statement is referred to twice, no statement is checked
twice. -/
lemma Acyclic.nodup_visited (hacyclic : p.Acyclic) (h : p.stmtReferences.Nodup) :
    p.visited.Nodup := by
  obtain ⟨height, hle, hlt⟩ := exists_height StmtId.index StmtId.index_injective
    (fun _ _ => index_lt_of_mem_stmtChildren) hacyclic.stmts
  have hitems := (nodup_append.mp h).1
  exact nodup_of_forest hacyclic.visited_eq hitems (apart_stmtParts h)
    (fun a x hx => not_mem_items h hx) hle fun a b hb => hlt a b ((p.stmtParts_sublist a).subset hb)

lemma SingleUse.nodup_recorded (h : p.SingleUse) (hacyclic : p.Acyclic) :
    (p.items.map p.stmtTree).sum.Nodup := by
  obtain ⟨height, hle, hlt⟩ := exists_height ExprId.index ExprId.index_injective
    (fun _ _ => index_lt_of_mem_exprChildren) hacyclic.exprs
  have hheld := h.apart_exprs.nodup_bind (hacyclic.nodup_visited h.stmts)
  refine nodup_of_forest hacyclic.recorded_eq hheld h.apart_exprChildren (fun a x hx hmem => ?_) hle
    hlt
  obtain ⟨s, -, hheld⟩ := Multiset.mem_bind.mp hmem
  exact h.not_mem_exprs hx (Multiset.mem_coe.mp hheld)

end Program

lemma TypeTable.isSome_get?_iff (table : TypeTable) (id : ExprId) :
    (table.get? id).isSome ↔ id ∈ table.log.map (·.1) := by
  unfold get?
  induction table.log with
  | nil => simp
  | cons entry rest ih =>
    rw [lookup_cons, map_cons, mem_cons]
    by_cases hid : id = entry.1
    · simp [hid]
    · simp [hid, beq_false_of_ne hid, ih]

lemma check_log {p : Program} (h : p.Acyclic) (options : Options) (imports : List Ident) :
    ((check p options imports).types.log.map (·.1) : Multiset ExprId) =
      (p.items.map p.stmtTree).sum := by
  have hmeets := Check.program_meets ⟨p, options⟩ (fun id _ => (h.stmt id).ends) imports
  exact (Check.meets_performing_iff.mp hmeets).2

/-- The expressions that a check gives types for are those that can be reached from the items,
whatever it reports. Where nothing is referred to twice, each of them is recorded once. -/
theorem check_records_reachable (p : Program) (options : Options) (imports : List Ident)
    (h : p.Acyclic) :
    (∀ id, ((check p options imports).types.get? id).isSome ↔ p.Reachable id) ∧
      (p.SingleUse → ∀ id, p.Reachable id →
        ((check p options imports).types.log.map (·.1)).count id = 1) := by
  have hlog := check_log h options imports
  have hreached (id : ExprId) :
      id ∈ (check p options imports).types.log.map (·.1) ↔ p.Reachable id := by
    rw [← Multiset.mem_coe, hlog, mem_sum_map]
    exact exists_congr fun item => and_congr_right fun _ => (h.stmt item).ends.mem_stmtTree
  refine ⟨fun id => (TypeTable.isSome_get?_iff _ id).trans (hreached id), fun hsingle id hid => ?_⟩
  have hnodup : ((check p options imports).types.log.map (·.1)).Nodup := by
    rw [← Multiset.coe_nodup, hlog]
    exact hsingle.nodup_recorded h
  exact count_eq_one_of_mem hnodup ((hreached id).mpr hid)

/-- The callee that lies past the arena is recorded as well. -/
theorem check_records_reachable_sample :
    Program.sample.Acyclic ∧ Program.sample.SingleUse ∧ Program.sample.Reachable ⟨9⟩ ∧
      ((check Program.sample {} []).types.get? ⟨9⟩).isSome ∧
      ((check Program.sample {} []).types.log.map (·.1)).count ⟨9⟩ = 1 := by
  have hsingle : sample.SingleUse := ⟨by decide, by decide⟩
  have hedge : sample.ExprEdge ⟨5⟩ ⟨9⟩ := show _ ∈ sample.exprChildren ⟨5⟩ by decide
  have hreachable : sample.Reachable ⟨9⟩ :=
    ⟨⟨4⟩, by decide, ⟨4⟩, .refl, ⟨5⟩, by decide, .single hedge⟩
  obtain ⟨hget, hcount⟩ := check_records_reachable sample {} [] sample_acyclic
  exact ⟨sample_acyclic, hsingle, hreachable, (hget ⟨9⟩).mpr hreachable,
    hcount hsingle ⟨9⟩ hreachable⟩

end StaticTyping
