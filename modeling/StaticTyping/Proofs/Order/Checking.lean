import StaticTyping.Proofs.Order.Merging

/-! Checking the items once all of them are registered. An item is checked in scopes of its own, so that
it changes nothing that another one depends on, and in two orders it is checked alike. -/

namespace StaticTyping

open Relation Program List Rule Mirror

namespace Program

/-- The functions that are checked with an item: the item itself, or the methods of a record. -/
def functionsOf (p : Program) (x : StmtId) : List StmtId := (x :: p.methodsOf x).filter p.isFunction

/-- The statement stands in a function that is checked with the item. -/
def Nested (p : Program) (x id : StmtId) : Prop :=
  ∃ owner ∈ p.functionsOf x, TransGen p.StmtEdge owner id

variable {p : Program} {x y id c owner : StmtId}

lemma mem_functionsOf :
    owner ∈ p.functionsOf x ↔ (owner = x ∨ owner ∈ p.methodsOf x) ∧ p.isFunction owner := by
  rw [functionsOf, mem_filter, mem_cons]

lemma below_of_mem_functionsOf (h : owner ∈ p.functionsOf x) : ReflTransGen p.StmtEdge x owner := by
  rcases (mem_functionsOf.mp h).1 with rfl | hmethod
  · exact .refl
  · exact .single (mem_stmtChildren_of_mem_methodsOf hmethod)

lemma Nested.child (h : p.Nested x id) (hc : c ∈ p.stmtChildren id) : p.Nested x c := by
  obtain ⟨owner, howner, hpath⟩ := h
  exact ⟨owner, howner, hpath.tail hc⟩

lemma Nested.below (h : p.Nested x id) : ReflTransGen p.StmtEdge x id := by
  obtain ⟨owner, howner, hpath⟩ := h
  exact (below_of_mem_functionsOf howner).trans hpath.to_reflTransGen

namespace Unordered

variable (h : p.Unordered)

include h

lemma nested_not_item (hid : p.Nested x id) : id ∉ p.items := by
  intro hitem
  obtain ⟨owner, -, hpath⟩ := hid
  obtain ⟨b, -, hb⟩ := TransGen.tail'_iff.mp hpath
  exact h.singleUse.not_mem_stmtChildren hitem b hb

lemma nested_not_method (hid : p.Nested x id) (hy : y ∈ p.items) : id ∉ p.methodsOf y := by
  intro hmethod
  obtain ⟨owner, howner, hpath⟩ := hid
  obtain ⟨b, hob, hb⟩ := TransGen.tail'_iff.mp hpath
  obtain rfl := h.singleUse.apart_stmtChildren.parent b y id hb (mem_stmtChildren_of_mem_methodsOf hmethod)
  rcases hob.cases_tail with rfl | ⟨d, -, hd⟩
  · simp [p.methodsOf_of_isFunction (mem_functionsOf.mp howner).2] at hmethod
  · exact h.singleUse.not_mem_stmtChildren hy d hd

lemma eq_of_below (hx : x ∈ p.items) (hy : y ∈ p.items) (hid : ReflTransGen p.StmtEdge x id)
    (hid' : ReflTransGen p.StmtEdge y id) : x = y := by
  have hroot {a b : StmtId} (hb : b ∈ p.items) (hab : ReflTransGen p.StmtEdge a b) : a = b := by
    rcases hab.cases_tail with rfl | ⟨d, -, hd⟩
    · rfl
    · exact absurd hd (h.singleUse.not_mem_stmtChildren hb d)
  rcases h.singleUse.apart_stmtChildren.comparable hid hid' with hup | hup
  · exact hroot hy hup
  · exact (hroot hx hup).symm

end Unordered

/-- What checking an item touches: nothing but what it declares inside. -/
def checkFootprint (p : Program) (x : StmtId) : Footprint where
  owns _ := False
  names := 0
  declares := ReflTransGen p.StmtEdge x

/-- What checking an item may change, if there were `n` symbols before any item was checked. -/
def checkPermit (p : Program) (n : Nat) (x : StmtId) : Permit where
  start := n
  owns _ := False
  declares := ReflTransGen p.StmtEdge x
  fresh id := ∃ item ∈ p.items, p.Nested item id

end Program

/-- A state between items. All items have their symbols. None of the first `n` symbols is an alias or
belongs to a statement inside an item. -/
structure State.Settled (p : Program) (n : Nat) (s : State) : Prop where
  coherent : s.Coherent
  complete : p.Complete s.outline.declared
  declared {x : StmtId} : x ∈ p.items → x ∈ s.outline.declared
  plain {i : SymbolId} : i.index < n → (s.symbols.get i).aliasTarget = none
  fresh {x id : StmtId} {symbol : SymbolId} : x ∈ p.items → p.Nested x id →
    s.declarations.lookup id = some symbol → n ≤ symbol.index

namespace Rule

variable {env : Env} {p : Program} {permit : Permit} {B : StmtId → Prop} {x : StmtId} {w : Outline}

/-- A type or function that has its written results writes no old symbol. -/
lemma item_writes (hkind : (env.program.stmt x).kind.isDeclaration)
    (hself : permit.declares x) (hmethods : ∀ m ∈ env.program.methodsOf x, permit.declares m)
    (hresults : ∀ owner decl, owner = x ∨ owner ∈ env.program.methodsOf x →
      (env.program.stmt owner).kind = .function decl → decl.result.isSome)
    (hbody : ∀ owner ∈ env.program.functionsOf x, ∀ c ∈ env.program.stmtChildren owner, B c) :
    Writes permit B (statement env x) := by
  refine declaration_writes hself hmethods (fun owner decl howner hdecl => ?_) fun hplain => ?_
  · have hmem : owner ∈ env.program.functionsOf x :=
      mem_functionsOf.mpr ⟨howner, by simp [isFunction, hdecl]⟩
    have hchildren := hbody owner hmem
    rw [stmtChildren, hdecl] at hchildren
    have hresult := Option.isSome_iff_ne_none.mp (hresults owner decl howner hdecl)
    exact ⟨fun hnone => absurd hnone hresult, hchildren⟩
  · cases hstmt : (env.program.stmt x).kind with
    | record | enum | function => simp [hstmt, StmtKind.declares] at hplain
    | _ => simp [hstmt, StmtKind.isDeclaration] at hkind

lemma ensureRegistered_known (hx : x ∈ w.declared) :
    (ensureRegistered p x).Meets (checking p B) w fun _ v => v = w := by
  refine (perform_meets (.declaredSymbol x) trivial w).bind ?_
  rintro found u ⟨rfl, htells⟩
  obtain ⟨known, rfl⟩ := Option.isSome_iff_exists.mp (htells.mpr hx)
  exact rfl

lemma item_introduces (env : Env) (h : StmtDescends env.program B)
    (hkind : (env.program.stmt x).kind.isDeclaration)
    (hresult : ∀ decl, (env.program.stmt x).kind = .function decl → decl.result.isSome)
    (hexprs : ∀ e ∈ (env.program.stmt x).kind.exprs, env.program.ExprEnds e)
    (hchildren : ∀ c ∈ (env.program.stmt x).kind.children, B c) (hx : x ∈ w.declared) :
    (statement env x).Meets (checking env.program B) w fun _ v => Outline.Introduces 0 w v := by
  have hensure := ensureRegistered_known (p := env.program) (B := B) hx
  unfold statement
  dsimp only
  cases hstmt : (env.program.stmt x).kind with
  | function decl =>
    rw [hstmt] at hexprs hchildren
    refine hensure.bind ?_
    rintro found _ rfl
    cases found with
    | none => exact .refl _
    | some function =>
      have hbody := (checkWalk env.program B).checkBody checks_encloses hchildren
      refine Steps.Has.after (inScope_introduces
        ((checkWalk env.program B).functionScope hexprs hbody function none)) (fun found => ?_) _
      dsimp only
      rw [if_pos (hresult decl hstmt)]
      exact .pure ()
  | record kind decl =>
    rw [hstmt] at hchildren
    refine hensure.bind ?_
    rintro found _ rfl
    cases found with
    | none => exact .refl _
    | some owner => exact inScope_introduces (methodsScope_does h hchildren owner) _
  | enum decl =>
    refine hensure.bind ?_
    rintro _ _ rfl
    exact .refl _
  | _ => simp [hstmt, StmtKind.isDeclaration] at hkind

end Rule

namespace Check

variable {p : Program} (hp : p.Unordered) (options : Options) {n : Nat} {x : StmtId} {s : State}

include hp

lemma stmt_keeps (hx : x ∈ p.items) (hs : s.Settled p n) (hn : n ≤ s.symbols.size) :
    (p.checkPermit n x).Keeps s ((stmt ⟨p, options⟩ x).run s).2 := by
  have hstart : (p.checkPermit n x).Keeps s s := by
    refine ⟨hn, fun hi => hs.plain hi, fun _ => rfl, fun _ _ => rfl, fun _ => rfl, ?_⟩
    rintro id symbol ⟨item, hitem, hnested⟩ hfound
    exact hs.fresh hitem hnested hfound
  have hvisitable : Rule.Visitable p (p.checkPermit n x) (p.Nested x) :=
    ⟨fun hid => hid.below, fun hid => ⟨x, hx, hid⟩, fun hid hc => hid.child hc⟩
  have hwrites : Rule.Writes (p.checkPermit n x) (p.Nested x) (.statement ⟨p, options⟩ x) := by
    refine item_writes (hp.declarations hx) .refl (fun m hm => ?_) (fun owner decl howner hdecl => ?_)
      fun owner howner c hc => ⟨owner, howner, .single hc⟩
    · exact .single (mem_stmtChildren_of_mem_methodsOf hm)
    · refine hp.results ?_ hdecl
      rcases howner with rfl | hmethod
      · exact .inl hx
      · exact .inr ⟨x, hx, hmethod⟩
  exact keeps_of_writes (writing_fulfil fun id hid t ht => stmtWithin_keeps hvisitable _ hid ht)
    hwrites hstart

lemma stmt_introduces (hx : x ∈ p.items) (hs : s.Settled p n) :
    Outline.Introduces 0 s.outline ((stmt ⟨p, options⟩ x).run s).2.outline := by
  have hends : p.StmtEnds x := (hp.singleUse.acyclicStmt hx).ends
  -- The depth that is left is enough for what is inside the item.
  let B (c : StmtId) : Prop := p.StmtEndsWithin p.statements.size c ∧ p.StmtEnds c
  have hdescends : Rule.StmtDescends p B :=
    ⟨fun c hc => hc.2, fun a b ha hb => ⟨ha.1.child hb, ha.2.child hb⟩⟩
  have hvisits := visits_fulfil ⟨p, options⟩ (B := B) fun c hc s => stmtWithin_meets hc.1 hc.2 s
  have hrule := item_introduces ⟨p, options⟩ hdescends (hp.declarations hx)
    (fun decl hdecl => hp.results (.inl hx) hdecl) hends.1
    (fun c hc => ⟨hends.2 c hc, EndsWithin.child hends hc⟩) (hs.declared hx)
  obtain ⟨-, _, rfl, hintroduces⟩ := meets_performing_iff.mp (toCheck_meets hvisits hrule rfl)
  exact hintroduces

lemma stmt_does (hx : x ∈ p.items) (s : State) :
    Outline.Does p.Complete (p.stmtTree x) s.outline ((stmt ⟨p, options⟩ x).run s).2.outline := by
  let env : Env := ⟨p, options⟩
  have hends : env.program.StmtEnds x := (hp.singleUse.acyclicStmt hx).ends
  exact (meets_performing_iff.mp (stmt_meets hends s)).2

lemma stmt_settled (hx : x ∈ p.items) (hs : s.Settled p n) (hn : n ≤ s.symbols.size) :
    ((stmt ⟨p, options⟩ x).run s).2.Settled p n := by
  have hkeeps := stmt_keeps hp options hx hs hn
  have hdoes := stmt_does hp options hx s
  have hstmt : (StmtTwins.plain ⟨p, options⟩).stmts Eq x := ⟨fun _ => rfl, trivial⟩
  have hruns := stmt_runs (.plain ⟨p, options⟩) steady_heeds identity_context hstmt s s hs.coherent
  refine ⟨hruns.2.1, hdoes.stays hs.complete, fun hitem => hdoes.declared (hs.declared hitem),
    fun hi => hkeeps.plain hi, fun hitem hnested hfound => ?_⟩
  exact hkeeps.fresh ⟨_, hitem, hnested⟩ hfound

lemma stmt_confined {xs : List StmtId} (hxs : ∀ x ∈ xs, x ∈ p.items) :
    Confined n (State.Settled p n) p.checkFootprint (stmt ⟨p, options⟩) xs := by
  intro x hx s hs hn
  have hkeeps := stmt_keeps hp options (hxs x hx) hs hn
  exact ⟨stmt_settled hp options (hxs x hx) hs hn, size_le_run _ s, hkeeps.symbols, hkeeps.untouched,
    hkeeps.declarations, stmt_introduces hp options (hxs x hx) hs⟩

end Check

end StaticTyping
