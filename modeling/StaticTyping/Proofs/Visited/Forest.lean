import StaticTyping.Proofs.Visited.Reached

/-! Where nothing is referred to twice, what the items lead to is a forest: no way down leads back to
where it was, and all ways to what is below a node go through the node. -/

namespace StaticTyping

open Multiset

section Descent

variable {α β : Type} {children : α → List α} {own : α → Multiset β}

/-- A node below another is that node, or its parent is below as well. -/
lemma Apart.parent_below (h : Apart children) {root a x : α} (hx : x ∈ children a)
    (hbelow : Relation.ReflTransGen (fun a b => b ∈ children a) root x) (hne : x ≠ root) :
    Relation.ReflTransGen (fun a b => b ∈ children a) root a := by
  rcases hbelow.cases_tail with rfl | ⟨b, hb, hbx⟩
  · exact absurd rfl hne
  · rwa [h.parent a b x hx hbx]

/-- A root has no parent, so it is on no cycle, and then neither is a child of what is on none. -/
lemma Apart.acyclic_below (h : Apart children) {root : α} (hroot : ∀ a, root ∉ children a) {x : α}
    (hx : Relation.ReflTransGen (fun a b => b ∈ children a) root x) :
    ¬ Relation.TransGen (fun a b => b ∈ children a) x x := by
  induction hx with
  | refl =>
    intro hcycle
    obtain ⟨a, -, ha⟩ := Relation.TransGen.tail'_iff.mp hcycle
    exact hroot a ha
  | @tail b x _ hbx ih =>
    intro hcycle
    obtain ⟨a, hxa, hax⟩ := Relation.TransGen.tail'_iff.mp hcycle
    obtain rfl := h.parent a b x hax hbx
    exact ih (.head' hbx hxa)

lemma Apart.comparable (h : Apart children) {a b x : α}
    (ha : Relation.ReflTransGen (fun a b => b ∈ children a) a x)
    (hb : Relation.ReflTransGen (fun a b => b ∈ children a) b x) :
    Relation.ReflTransGen (fun a b => b ∈ children a) a b ∨
      Relation.ReflTransGen (fun a b => b ∈ children a) b a := by
  induction ha with
  | refl => exact .inr hb
  | @tail c x hac hcx ih =>
    rcases hb.cases_tail with rfl | ⟨e, hbe, hex⟩
    · exact .inl (hac.tail hcx)
    · obtain rfl := h.parent c e x hcx hex
      exact ih hbe

/-- What is gathered is held by nodes below, also where the way down does not end. -/
lemma below_of_mem_gatherWithin {n : Nat} {a : α} {x : β} (h : x ∈ gatherWithin own children n a) :
    ∃ b, Relation.ReflTransGen (fun a b => b ∈ children a) a b ∧ x ∈ own b := by
  induction n generalizing a with
  | zero => exact absurd h (notMem_zero x)
  | succ n ih =>
    rw [gatherWithin, mem_add, mem_sum_map] at h
    rcases h with hx | ⟨c, hc, hx⟩
    · exact ⟨a, .refl, hx⟩
    · obtain ⟨b, hcb, hx⟩ := ih hx
      exact ⟨b, .head hc hcb, hx⟩

end Descent

variable {item : StmtId}

namespace Program.SingleUse

variable {p : Program} (h : p.SingleUse)

include h

lemma apart_stmtChildren : Apart p.stmtChildren :=
  apart_of_arena (List.nodup_append.mp h.stmts).2.1 rfl StmtId.index_injective

lemma not_mem_stmtChildren (hitem : item ∈ p.items) (a : StmtId) : item ∉ p.stmtChildren a := by
  intro hchild
  have hreference := mem_flatMap_kids (fun node : Stmt => node.kind.children) rfl hchild
  exact (List.nodup_append.mp h.stmts).2.2 item hitem item hreference rfl

lemma acyclicStmt (hitem : item ∈ p.items) : p.AcyclicStmt item := by
  intro a ha
  refine ⟨h.apart_stmtChildren.acyclic_below (h.not_mem_stmtChildren hitem) ha, fun e he x hx => ?_⟩
  exact h.apart_exprChildren.acyclic_below (fun b hb => h.not_mem_exprs hb he) hx

end Program.SingleUse

namespace Program

def stmtsBelow (p : Program) (d : StmtId) : Multiset StmtId :=
  gatherWithin (fun a => {a}) p.stmtChildren p.stmtDepth d

def exprsBelow (p : Program) (d : StmtId) : Multiset ExprId :=
  gatherWithin (fun a => ((p.stmt a).kind.exprs.map p.exprTree).sum) p.stmtChildren p.stmtDepth d

def LeadsTo (p : Program) (id : StmtId) : Prop :=
  ∃ item ∈ p.items, Relation.ReflTransGen p.StmtEdge item id

/-- The expression stands in the statement, at any depth but in no statement inside it. -/
def Holds (p : Program) (id : StmtId) (e : ExprId) : Prop :=
  ∃ held ∈ (p.stmt id).kind.exprs, Relation.ReflTransGen p.ExprEdge held e

variable {p : Program} {d id part : StmtId} {e : ExprId}

lemma LeadsTo.child (h : p.LeadsTo id) (hpart : part ∈ p.stmtChildren id) : p.LeadsTo part := by
  obtain ⟨item, hitem, hid⟩ := h
  exact ⟨item, hitem, hid.tail hpart⟩

namespace SingleUse

variable (h : p.SingleUse)

include h

lemma ends (hid : p.LeadsTo id) : p.StmtEnds id := by
  obtain ⟨item, hitem, hid⟩ := hid
  exact .below (h.acyclicStmt hitem).ends hid

lemma mem_stmtsBelow (hd : p.LeadsTo d) :
    id ∈ p.stmtsBelow d ↔ Relation.ReflTransGen p.StmtEdge d id := by
  refine (mem_gatherWithin (h.ends hd)).trans ⟨?_, fun hid => ⟨id, hid, mem_singleton_self id⟩⟩
  rintro ⟨other, hother, hmem⟩
  rwa [mem_singleton.mp hmem]

lemma mem_exprsBelow (hd : p.LeadsTo d) :
    e ∈ p.exprsBelow d ↔ ∃ id, Relation.ReflTransGen p.StmtEdge d id ∧ p.Holds id e := by
  have hends := h.ends hd
  refine (mem_gatherWithin hends).trans (exists_congr fun id => and_congr_right fun hid => ?_)
  rw [mem_sum_map]
  exact exists_congr fun held => and_congr_right fun hheld =>
    ExprEnds.mem_exprTree ((hends.below hid).here held hheld)

lemma leadsTo_of_below (hid : p.LeadsTo id) (hbelow : Relation.ReflTransGen p.StmtEdge d id) :
    p.LeadsTo d := by
  obtain ⟨item, hitem, hpath⟩ := hid
  rcases h.apart_stmtChildren.comparable hpath hbelow with hd | hd
  · exact ⟨item, hitem, hd⟩
  · rcases hd.cases_tail with rfl | ⟨b, -, hb⟩
    · exact ⟨item, hitem, .refl⟩
    · exact absurd hb (h.not_mem_stmtChildren hitem b)

lemma leadsTo_of_mem_stmtsBelow (hid : p.LeadsTo id) (hmem : id ∈ p.stmtsBelow d) :
    p.LeadsTo d := by
  obtain ⟨other, hother, hmem⟩ := below_of_mem_gatherWithin hmem
  obtain rfl := mem_singleton.mp hmem
  exact h.leadsTo_of_below hid hother

lemma eq_of_holds {id' : StmtId} (hid : p.Holds id e) (hid' : p.Holds id' e) : id = id' := by
  obtain ⟨held, hheld, hpath⟩ := hid
  obtain ⟨held', hheld', hpath'⟩ := hid'
  have hroot {s : StmtId} {x : ExprId} (hx : x ∈ (p.stmt s).kind.exprs) {y : ExprId}
      (hy : Relation.ReflTransGen p.ExprEdge y x) : y = x := by
    rcases hy.cases_tail with rfl | ⟨b, -, hb⟩
    · rfl
    · exact absurd hx (h.not_mem_exprs hb)
  have hsame : held = held' := by
    rcases h.apart_exprChildren.comparable hpath hpath' with hup | hup
    · exact hroot hheld' hup
    · exact (hroot hheld hup).symm
  subst hsame
  exact h.apart_exprs.parent id id' held hheld hheld'

lemma mem_exprsBelow_iff (hid : p.LeadsTo id) (he : p.Holds id e) :
    e ∈ p.exprsBelow d ↔ id ∈ p.stmtsBelow d := by
  constructor
  · intro hmem
    obtain ⟨other, hother, hmem⟩ := below_of_mem_gatherWithin hmem
    obtain ⟨held, hheld, hmem⟩ := mem_sum_map.mp hmem
    obtain ⟨b, hb, hmem⟩ := below_of_mem_gatherWithin hmem
    obtain rfl := mem_singleton.mp hmem
    obtain rfl := h.eq_of_holds he ⟨held, hheld, hb⟩
    exact (h.mem_stmtsBelow (h.leadsTo_of_below hid hother)).mpr hother
  · intro hmem
    have hd := h.leadsTo_of_mem_stmtsBelow hid hmem
    exact (h.mem_exprsBelow hd).mpr ⟨id, (h.mem_stmtsBelow hd).mp hmem, he⟩

/-- A statement comes to stand inside another with the one around it, if it is not that other. -/
lemma mem_stmtsBelow_iff (hid : p.LeadsTo id) (hpart : part ∈ p.stmtChildren id) (hne : part ≠ d) :
    part ∈ p.stmtsBelow d ↔ id ∈ p.stmtsBelow d := by
  constructor
  · intro hmem
    have hd := h.leadsTo_of_mem_stmtsBelow (hid.child hpart) hmem
    rw [h.mem_stmtsBelow hd] at hmem ⊢
    exact h.apart_stmtChildren.parent_below hpart hmem hne
  · intro hmem
    have hd := h.leadsTo_of_mem_stmtsBelow hid hmem
    rw [h.mem_stmtsBelow hd] at hmem ⊢
    exact hmem.tail hpart

lemma not_mem_stmtsBelow_child (hid : p.LeadsTo id) (hpart : part ∈ p.stmtChildren id) :
    id ∉ p.stmtsBelow part := by
  intro hmem
  rw [h.mem_stmtsBelow (hid.child hpart)] at hmem
  obtain ⟨item, hitem, hpath⟩ := hid
  exact (h.acyclicStmt hitem id hpath).1 (.head' hpart hmem)

lemma eq_of_item_below (hitem : item ∈ p.items) (hmem : item ∈ p.stmtsBelow d) : item = d := by
  have hd := h.leadsTo_of_mem_stmtsBelow ⟨item, hitem, .refl⟩ hmem
  rcases ((h.mem_stmtsBelow hd).mp hmem).cases_tail with rfl | ⟨b, -, hb⟩
  · rfl
  · exact absurd hb (h.not_mem_stmtChildren hitem b)

end SingleUse

end Program

end StaticTyping
